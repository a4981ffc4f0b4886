import PageQuery.Number.Whole
import PageQuery.Sql.Backend
/-!
# Settings

Settings are read from named variables, each with its own grammar, in a fixed order; the first one
that is wrong is the fault.
-/
namespace PageQuery

structure Settings where
  databaseUrl : Option String
  backend : Backend
  copyRestriction : Option Bool
  countIdiom : Option CountIdiom
  statementTimeout : UInt64
  maxLimit : Option UInt64
  deriving DecidableEq, Repr

/-- The first setting that is wrong, with the word or the reason. -/
inductive SettingFault where
  | backend (word : String)
  | copyRestriction (word : String)
  | countIdiom (word : String)
  | statementTimeout (fault : WholeFault)
  | maxLimit (fault : WholeFault)
  | zeroMaxLimit
  deriving DecidableEq, Repr

def unknownBackend (word : String) : String := "unknown backend '" ++ word ++ "'"

def unknownCountIdiom (word : String) : String := "unknown count idiom '" ++ word ++ "'"

def SettingFault.message : SettingFault → String
  | .backend word =>
    "PAGEWRIGHT_BACKEND must be postgres, mysql or sqlite: " ++ unknownBackend word
  | .copyRestriction word =>
    "PAGEWRIGHT_COPY_RESTRICTION must be true or false: '" ++ word ++ "' is not a boolean"
  | .countIdiom word => "PAGEWRIGHT_COUNT_IDIOM must be in or exists: " ++ unknownCountIdiom word
  | .statementTimeout fault =>
    "PAGEWRIGHT_STATEMENT_TIMEOUT_SECS must be a valid u64: " ++ fault.message
  | .maxLimit fault => "PAGEWRIGHT_MAX_LIMIT must be a valid u64: " ++ fault.message
  | .zeroMaxLimit => "PAGEWRIGHT_MAX_LIMIT must be at least 1"

def switchWords : List (String × Bool) :=
  [("1", true), ("true", true), ("yes", true), ("on", true),
   ("0", false), ("false", false), ("no", false), ("off", false)]

def readSwitch? (s : String) : Option Bool := switchWords.lookup (settingWord s)

def readOptional {α : Type} (read : String → Except SettingFault α) :
    Option String → Except SettingFault (Option α)
  | none => .ok none
  | some s => (read s).map some

def asSetting {α : Type} (fault : WholeFault → SettingFault) :
    Except WholeFault α → Except SettingFault α
  | .ok a => .ok a
  | .error f => .error (fault f)

def orFault {α : Type} (fault : String → SettingFault) (s : String) :
    Option α → Except SettingFault α
  | some a => .ok a
  | none => .error (fault (settingWord s))

namespace Settings

def standard : Settings := ⟨none, .postgres, none, none, 10, none⟩

/-- A database URL of blanks counts as absent. -/
def urlOf (value : Option String) : Option String := value.filter fun s => !(trim s).isEmpty

/-- The backend that is named, else the one of the URL, else Postgres. -/
def backendOf (value url : Option String) : Except SettingFault Backend :=
  match value with
  | some s => orFault .backend s (Backend.ofName? s)
  | none => .ok ((url.bind Backend.ofUrl?).getD .postgres)

def positive : Option UInt64 → Except SettingFault (Option UInt64)
  | some n => if n = 0 then .error .zeroMaxLimit else .ok (some n)
  | none => .ok none

def ofLookup (lookup : String → Option String) : Except SettingFault Settings := do
  let url := urlOf (lookup "DATABASE_URL")
  let backend ← backendOf (lookup "PAGEWRIGHT_BACKEND") url
  let copy ← readOptional (fun s => orFault .copyRestriction s (readSwitch? s))
    (lookup "PAGEWRIGHT_COPY_RESTRICTION")
  let idiom ← readOptional (fun s => orFault .countIdiom s (CountIdiom.ofName? s))
    (lookup "PAGEWRIGHT_COUNT_IDIOM")
  let timeout ← asSetting .statementTimeout
    (readUnsigned ((lookup "PAGEWRIGHT_STATEMENT_TIMEOUT_SECS").getD "10"))
  let max ← readOptional (fun s => asSetting .maxLimit (readUnsigned s))
    (lookup "PAGEWRIGHT_MAX_LIMIT")
  let max ← positive max
  .ok ⟨url, backend, copy, idiom, timeout, max⟩

def capabilitiesFor (s : Settings) (b : Backend) : Capabilities :=
  ⟨s.copyRestriction.getD b.capabilities.copiesRestriction,
    s.countIdiom.getD b.capabilities.countIdiom⟩

def capabilities (s : Settings) : Capabilities := s.capabilitiesFor s.backend

def connectionUrl (s : Settings) : Except String String :=
  match s.databaseUrl with
  | some url => .ok url
  | none => .error "DATABASE_URL must be set to connect"

end Settings
end PageQuery
