import TrieFeed.Files.Tree
import TrieFeed.Sql.Database
import TrieFeed.Sql.Server
/-!
# The host

What lies outside of scripts: the files, databases, database server and log that they reach through
capabilities, and the engines that run them.
-/
namespace TrieFeed

inductive LogLevel where
  | debug
  | info
  | warn
  | error
deriving DecidableEq, Inhabited

structure LogLine where
  level : LogLevel
  source : String
  message : String
deriving DecidableEq, Inhabited

structure Host where
  files : FileTree
  /-- Databases under the texts of their paths. -/
  databases : Fields Sql.Database
  server : Option Sql.Server
  /-- How many pools have been opened so far. -/
  poolCount : Nat
  log : List LogLine
  /-- The providers whose engines run, one entry for each engine. -/
  engines : List String
deriving Inhabited

namespace Host

def ofFiles (files : FileTree) : Host := ⟨files, [], none, 0, [], []⟩

def engineStarted (provider : String) (h : Host) : Host :=
  { h with engines := provider :: h.engines }

def engineEnded (provider : String) (h : Host) : Host :=
  { h with engines := h.engines.erase provider }

def write (level : LogLevel) (source message : String) (h : Host) : Host :=
  { h with log := h.log ++ [⟨level, source, message⟩] }

end Host

end TrieFeed
