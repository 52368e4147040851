import HardwareSigner.Wire
import HardwareSigner.Code

/-!
Records about the application itself: its version, its name, and what the dashboard tells.
-/

namespace HardwareSigner

structure VersionQuery where
  deriving DecidableEq

structure NameQuery where
  deriving DecidableEq

structure AppInfoQuery where
  deriving DecidableEq

instance : Request VersionQuery where
  encode _ := .ok []
  read := pure {}
  cla := appClass
  ins := Instruction.getVersion.code

instance : Request NameQuery where
  encode _ := .ok []
  read := pure {}
  cla := appClass
  ins := Instruction.getAppName.code

instance : Request AppInfoQuery where
  encode _ := .ok []
  read := pure {}
  cla := dashboardClass
  ins := dashboardAppInfo

structure AppVersion where
  major : UInt8
  minor : UInt8
  patch : UInt8
  deriving DecidableEq

namespace AppVersion

def text (v : AppVersion) : String :=
  v.major.toNat.repr ++ "." ++ v.minor.toNat.repr ++ "." ++ v.patch.toNat.repr

def layout (v : AppVersion) : Bytes := [v.major, v.minor, v.patch]

instance : Record AppVersion where
  encode v := .ok v.layout
  read := do
    let major ← Reader.byte
    let minor ← Reader.byte
    let patch ← Reader.byte
    pure ⟨major, minor, patch⟩

end AppVersion

structure AppName where
  name : String
  deriving DecidableEq

namespace AppName

def layout (n : AppName) : Bytes := Bytes.ofText n.name

instance : Record AppName where
  encode n := .ok n.layout
  read := fun b =>
    match Bytes.toText? b with
    | some name => .ok (⟨name⟩, [])
    | none => .error .invalidEncoding

end AppName

/-- What the dashboard tells of the application: name, version and flags that are its own. -/
structure AppInfo where
  name : String
  version : String
  flags : Bytes
  deriving DecidableEq

namespace AppInfo

/-- The one known layout of the record. -/
def format : UInt8 := 0x01

def encode (i : AppInfo) : Except WireError Bytes := do
  let name ← Bytes.lengthPrefixed (Bytes.ofText i.name)
  let version ← Bytes.lengthPrefixed (Bytes.ofText i.version)
  let flags ← Bytes.lengthPrefixed i.flags
  pure (format :: (name ++ version ++ flags))

def readText : Reader String := do
  let b ← Reader.lengthPrefixed
  match Bytes.toText? b with
  | some s => pure s
  | none => Reader.refuse .invalidEncoding

def read : Reader AppInfo := do
  let f ← Reader.byte
  if f != format then Reader.refuse .invalidEncoding
  let name ← readText
  let version ← readText
  let flags ← Reader.lengthPrefixed
  pure ⟨name, version, flags⟩

/-- The length is counted before it is known that every field fits its own length byte. -/
instance : Record AppInfo where
  encode := encode
  encodedLength i :=
    .ok (4 + (Bytes.ofText i.name).length + (Bytes.ofText i.version).length + i.flags.length)
  read := read

end AppInfo

end HardwareSigner
