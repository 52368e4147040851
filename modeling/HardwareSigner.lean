import HardwareSigner.Bytes
import HardwareSigner.Wire
import HardwareSigner.Code
import HardwareSigner.Status
import HardwareSigner.Text.Blank
import HardwareSigner.Text.Decimal
import HardwareSigner.Text.Hex
import HardwareSigner.Hash.Blake2b
import HardwareSigner.Hash.Sha512
import HardwareSigner.Hash.Hmac
import HardwareSigner.Hash.Sha256
import HardwareSigner.Curve.Secp256k1
import HardwareSigner.Curve.Ecdsa
import HardwareSigner.Curve.Schnorr
import HardwareSigner.Curve.System
import HardwareSigner.Path
import HardwareSigner.Frame
import HardwareSigner.Record.AppInfo
import HardwareSigner.Record.Message
import HardwareSigner.Record.PublicKey
import HardwareSigner.Record.Transaction
import HardwareSigner.Record.Response
import HardwareSigner.Key.Source
import HardwareSigner.Key.WordList
import HardwareSigner.Key.Mnemonic
import HardwareSigner.Error
import HardwareSigner.Transaction.Basic
import HardwareSigner.Transaction.Chunk
import HardwareSigner.Json.Reader
import HardwareSigner.Json.Skip
import HardwareSigner.Json.Record
import HardwareSigner.Json.Writer
import HardwareSigner.Transaction.File
import HardwareSigner.Transaction.Serial
import HardwareSigner.Transaction.Sighash
import HardwareSigner.Message
import HardwareSigner.Device.Config
import HardwareSigner.Device.Staging
import HardwareSigner.Device.Digest
import HardwareSigner.Device.Request
import HardwareSigner.Device.Engine
import HardwareSigner.Device.Simulated
import HardwareSigner.Client.Program
import HardwareSigner.Client.Approval
import HardwareSigner.Client.Signatures
import HardwareSigner.Client.Handle
import HardwareSigner.Link.Direct
import HardwareSigner.Link.Scripted
import HardwareSigner.Link.Wiretap
import HardwareSigner.Stream.Framing
import HardwareSigner.Stream.Link
import HardwareSigner.Stream.Server
import HardwareSigner.Routine.Basic
import HardwareSigner.Routine.Exercises
import HardwareSigner.Cli.Address
import HardwareSigner.Cli.Command
import HardwareSigner.Cli.Arguments
import HardwareSigner.Cli.Console
import HardwareSigner.Cli.SignatureFile
import HardwareSigner.Cli.Execute
import HardwareSigner.Cli.Desk
import HardwareSigner.Main
import HardwareSigner.Proofs.Client.Ends
import HardwareSigner.Proofs.Wire.Reader
import HardwareSigner.Proofs.Wire.Records
import HardwareSigner.Proofs.Wire.Word
import HardwareSigner.Proofs.Client.Runs
import HardwareSigner.Proofs.Client.Collection
import HardwareSigner.Proofs.Device.Run
import HardwareSigner.Proofs.Device.Change
import HardwareSigner.Proofs.Device.Payload
import HardwareSigner.Proofs.Device.Staged
import HardwareSigner.Proofs.Device.Invariant
import HardwareSigner.Proofs.Device.Registers
import HardwareSigner.Proofs.Device.Agreement
import HardwareSigner.Proofs.Device.Submission
import HardwareSigner.Proofs.Device.Release
import HardwareSigner.Proofs.Wire.Exact
import HardwareSigner.Proofs.Transaction.Serial
import HardwareSigner.Proofs.Transaction.Chunks
import HardwareSigner.Proofs.Transaction.Chunker
import HardwareSigner.Proofs.Device.Signable
import HardwareSigner.Proofs.Device.Refusal
import HardwareSigner.Proofs.Client.Simulated
import HardwareSigner.Proofs.Client.Emission
import HardwareSigner.Proofs.Client.Bounded
import HardwareSigner.Proofs.Client.Completion
import HardwareSigner.Proofs.Wire.Answers
import HardwareSigner.Proofs.Wire.Lossless
import HardwareSigner.Proofs.Wire.Length
import HardwareSigner.Proofs.Wire.Message
import HardwareSigner.Proofs.Transaction.Framing
import HardwareSigner.Proofs.Transaction.Commitment
import HardwareSigner.Log
import HardwareSigner.Proofs.Device.Withheld
import HardwareSigner.Device.Shared
import HardwareSigner.Proofs.Device.Shared
import HardwareSigner.Proofs.Client.Message
import HardwareSigner.Client.Session
import HardwareSigner.Client.Tasks
import HardwareSigner.Proofs.Client.Grip
import HardwareSigner.Link.Delayed
import HardwareSigner.Proofs.Client.Delayed
import HardwareSigner.Proofs.Client.Owing
import HardwareSigner.Proofs.Client.Attribution
import HardwareSigner.Proofs.Client.Exclusive
import HardwareSigner.Proofs.Device.Requests
import HardwareSigner.Proofs.Device.KeyTable
import HardwareSigner.Proofs.Device.Query
import HardwareSigner.Proofs.Device.Binding
import HardwareSigner.Proofs.Client.Passage
import HardwareSigner.Proofs.Client.Course
import HardwareSigner.Proofs.Client.Protocol
import HardwareSigner.Proofs.Text.Digits
import HardwareSigner.Proofs.Text.Path
import HardwareSigner.Proofs.Json.Reader
import HardwareSigner.Proofs.Transaction.File
import HardwareSigner.Stream.Connection
import HardwareSigner.Buffer.Basic
import HardwareSigner.Buffer.Fields
import HardwareSigner.Buffer.Records
import HardwareSigner.Buffer.Transaction
import HardwareSigner.Buffer.Engine
import HardwareSigner.Proofs.Device.Reply
import HardwareSigner.Proofs.Stream.Framing
import HardwareSigner.Proofs.Stream.Connection
import HardwareSigner.Proofs.Buffer.Reading
import HardwareSigner.Proofs.Buffer.Writing
import HardwareSigner.Proofs.Buffer.Ranged
import HardwareSigner.Proofs.Buffer.Records
import HardwareSigner.Proofs.Buffer.Transaction
import HardwareSigner.Proofs.Buffer.Engine
import HardwareSigner.Proofs.Routine.Build
