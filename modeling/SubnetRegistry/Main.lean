import Std.Time.DateTime.Timestamp
import SubnetRegistry.Bus
import SubnetRegistry.Wire.Frame

/-!
# The server

Reads the configuration from the environment and serves the messages of a message server, which is
at the other end of the standard streams.
-/
namespace SubnetRegistry.Server

def say (output : IO.FS.Stream) (text : String) : IO Unit := do
  output.putStr text
  output.flush

/-- Reads `count` bytes, or fewer if the input ends before. -/
partial def readBytes (input : IO.FS.Stream) (count : Nat) : IO (List UInt8) := do
  if count = 0 then return []
  let bytes ← input.read (USize.ofNat count)
  if bytes.isEmpty then return []
  return bytes.toList ++ (← readBytes input (count - bytes.size))

def freshIdentifier : IO String := do
  let now ← Std.Time.Timestamp.now
  let chance ← IO.getRandomBytes 10
  return Identifier.generate now.toMillisecondsSinceUnixEpoch.val.toNat
    (chance.toList.foldl (fun n b => 256 * n + b.toNat) 0)

def publish (output : IO.FS.Stream) (m : Message) : IO Unit := do
  output.putStr (Frame.publish m.subject m.payload)
  output.write (ByteArray.mk m.payload.toArray)
  say output Frame.lineEnd

/-- Serves until the input ends. -/
partial def serve (input output : IO.FS.Stream) (root : String) (s : Service) : IO Unit := do
  let line ← input.getLine
  if line.isEmpty then return
  match Notice.ofLine line with
  | .message subject reply size =>
    let payload ← readBytes input size
    let identifier ← freshIdentifier
    let served := s.serve { identifier := fun _ => identifier } root ⟨subject, payload, reply⟩
    if let some m := served.publish then publish output m
    serve input output root served.service
  | .ping =>
    say output Frame.pong
    serve input output root s
  | .other => serve input output root s

end SubnetRegistry.Server

open SubnetRegistry SubnetRegistry.Server in
/-- Serves subnets as the environment says, or reports what is wrong with it. -/
def main : IO UInt32 := do
  let values ← Config.keys.mapM fun key => do return (key, ← IO.getEnv key)
  match Config.ofLookup fun key => (values.lookup key).join with
  | .error e =>
    IO.eprintln ("Error: Invalid configuration\n\nCaused by:\n    " ++
      e.toInfrastructureError.message)
    return 1
  | .ok config =>
    let output ← IO.getStdout
    say output (Frame.connect config.clientName)
    say output (Frame.subscribe (Subject.all config.subjectRoot))
    serve (← IO.getStdin) output config.subjectRoot { store := .empty }
    return 0
