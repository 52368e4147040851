/-!
Status words: the two bytes that close every answer of a device.
-/

namespace HardwareSigner

inductive StatusWord where
  | ok
  | deny
  | wrongP1P2
  | wrongDataLength
  | insNotSupported
  | claNotSupported
  | wrongResponseLength
  | displayBip32PathFail
  | displayAddressFail
  | displayAmountFail
  | wrongTxLength
  | txParsingFail
  | txHashFail
  | badState
  | signatureFail
  | wrongBip32Purpose
  | wrongBip32CoinType
  | wrongBip32PathLen
  | wrongBip32Type
  | messageParsingFail
  | messageTooLong
  | messageTooShort
  | messageAddressTypeFail
  | messageAddressIndexFail
  | messageLenParsingFail
  | messageUnexpected
  deriving DecidableEq, Repr

namespace StatusWord

def all : List StatusWord :=
  [ok, deny, wrongP1P2, wrongDataLength, insNotSupported, claNotSupported, wrongResponseLength,
    displayBip32PathFail, displayAddressFail, displayAmountFail, wrongTxLength, txParsingFail,
    txHashFail, badState, signatureFail, wrongBip32Purpose, wrongBip32CoinType, wrongBip32PathLen,
    wrongBip32Type, messageParsingFail, messageTooLong, messageTooShort, messageAddressTypeFail,
    messageAddressIndexFail, messageLenParsingFail, messageUnexpected]

def code : StatusWord → UInt16
  | ok => 0x9000
  | deny => 0x6985
  | wrongP1P2 => 0x6a86
  | wrongDataLength => 0x6a87
  | insNotSupported => 0x6d00
  | claNotSupported => 0x6e00
  | wrongResponseLength => 0xb000
  | displayBip32PathFail => 0xb001
  | displayAddressFail => 0xb002
  | displayAmountFail => 0xb003
  | wrongTxLength => 0xb004
  | txParsingFail => 0xb005
  | txHashFail => 0xb006
  | badState => 0xb007
  | signatureFail => 0xb008
  | wrongBip32Purpose => 0xb009
  | wrongBip32CoinType => 0xb00a
  | wrongBip32PathLen => 0xb00b
  | wrongBip32Type => 0xb00c
  | messageParsingFail => 0xb010
  | messageTooLong => 0xb011
  | messageTooShort => 0xb012
  | messageAddressTypeFail => 0xb013
  | messageAddressIndexFail => 0xb014
  | messageLenParsingFail => 0xb015
  | messageUnexpected => 0xb016

def ofCode? (c : UInt16) : Option StatusWord := all.find? (·.code == c)

def name : StatusWord → String
  | ok => "Ok"
  | deny => "Deny"
  | wrongP1P2 => "WrongP1P2"
  | wrongDataLength => "WrongDataLength"
  | insNotSupported => "InsNotSupported"
  | claNotSupported => "ClaNotSupported"
  | wrongResponseLength => "WrongResponseLength"
  | displayBip32PathFail => "DisplayBip32PathFail"
  | displayAddressFail => "DisplayAddressFail"
  | displayAmountFail => "DisplayAmountFail"
  | wrongTxLength => "WrongTxLength"
  | txParsingFail => "TxParsingFail"
  | txHashFail => "TxHashFail"
  | badState => "BadState"
  | signatureFail => "SignatureFail"
  | wrongBip32Purpose => "WrongBip32Purpose"
  | wrongBip32CoinType => "WrongBip32CoinType"
  | wrongBip32PathLen => "WrongBip32PathLen"
  | wrongBip32Type => "WrongBip32Type"
  | messageParsingFail => "MessageParsingFail"
  | messageTooLong => "MessageTooLong"
  | messageTooShort => "MessageTooShort"
  | messageAddressTypeFail => "MessageAddressTypeFail"
  | messageAddressIndexFail => "MessageAddressIndexFail"
  | messageLenParsingFail => "MessageLenParsingFail"
  | messageUnexpected => "MessageUnexpected"

def isOk (s : StatusWord) : Bool := s = .ok

def isDenied (s : StatusWord) : Bool := s = .deny

def isPathError : StatusWord → Bool
  | wrongBip32Purpose | wrongBip32CoinType | wrongBip32PathLen | wrongBip32Type => true
  | _ => false

/-- The device does not take the message: the codes from `0xb010` to `0xb01f`. -/
def isMessageError (s : StatusWord) : Bool := s.code &&& 0xfff0 == 0xb010

end StatusWord

end HardwareSigner
