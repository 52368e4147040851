import HardwareSigner.Record.AppInfo
import HardwareSigner.Record.PublicKey
import HardwareSigner.Record.Message
import HardwareSigner.Record.Transaction

/-!
Typed answers: the instruction that was sent fixes the layout of the data, and the data has to
be exactly one record of that layout.
-/

namespace HardwareSigner

/-- Layout of the data in an answer. -/
inductive ResponseKind where
  | version
  | appName
  | appAndVersion
  | publicKey
  | txSignature
  | messageSignature
  deriving DecidableEq, Repr

namespace ResponseKind

def all : List ResponseKind :=
  [version, appName, appAndVersion, publicKey, txSignature, messageSignature]

def ofInstruction : Instruction → ResponseKind
  | .getVersion => version
  | .getAppName => appName
  | .getPublicKey => publicKey
  | .signTx => txSignature
  | .signMessage => messageSignature

def name : ResponseKind → String
  | version => "Version"
  | appName => "AppName"
  | appAndVersion => "AppAndVersion"
  | publicKey => "PublicKey"
  | txSignature => "TxSignature"
  | messageSignature => "MessageSignature"

end ResponseKind

inductive Response where
  | version (r : AppVersion)
  | appName (r : AppName)
  | appAndVersion (r : AppInfo)
  | publicKey (r : PublicKey)
  | txSignature (r : TxSignature)
  | messageSignature (r : MessageSignature)

namespace Response

def kind : Response → ResponseKind
  | version _ => .version
  | appName _ => .appName
  | appAndVersion _ => .appAndVersion
  | publicKey _ => .publicKey
  | txSignature _ => .txSignature
  | messageSignature _ => .messageSignature

def encode : Response → Except WireError Bytes
  | version r => Record.encode r
  | appName r => Record.encode r
  | appAndVersion r => Record.encode r
  | publicKey r => Record.encode r
  | txSignature r => Record.encode r
  | messageSignature r => Record.encode r

def read : ResponseKind → Reader Response
  | .version => version <$> Record.read
  | .appName => appName <$> Record.read
  | .appAndVersion => appAndVersion <$> Record.read
  | .publicKey => publicKey <$> Record.read
  | .txSignature => txSignature <$> Record.read
  | .messageSignature => messageSignature <$> Record.read

def decode (k : ResponseKind) (b : Bytes) : Except WireError Response := (read k).decodeAll b

end Response

end HardwareSigner
