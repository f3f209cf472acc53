import StreamMemory.Session.Basic

/-!
# Scripts

A script is an operation as a user writes it, with blocks by their numbers. To resolve a script is to
check its acts in order and to turn it into an operation. A block that a script frees is lost to its
user at once, also if a later act is refused.
-/

set_option autoImplicit false

namespace StreamMemory

inductive ScriptAct where
  | mark (label : String)
  | panic
  | write (block : Nat) (byte : UInt8) (length offset : Nat)
  | read (block : Nat) (length offset : Nat)
  | enqueue (stream : StreamId) (acts : List ScriptAct)
  | synchronize (stream : StreamId)
  | destroy (stream : StreamId)
  | pending (stream : StreamId)
  | free (block : Nat) (stream : StreamId)

abbrev Script := List ScriptAct

namespace Session

/-- A block that an act reads or writes. Only acts of the outermost operation may do so. -/
def accessed (s : Session) (nested : Bool) (b : Nat) (length offset : Nat) : Checked Holding := do
  demand (!nested) .nestedAccess
  s.window b length offset

/-- A block that an act of an operation on stream `here` frees in the order of another stream. -/
def freed (s : Session) (here : StreamId) (b : Nat) (t : StreamId) : Checked Holding := do
  s.stream t
  let h ← s.holding b
  s.notInUse h (some here)
  demand (s.machine.emulated? h.resource).isSome .notEmulated
  return h

mutual
def resolveAct (here : StreamId) (nested : Bool) (s : Session) : ScriptAct → Checked Act × Session
  | .mark label => (.ok (.mark label), s)
  | .panic => (.ok .panic, s)
  | .write b byte length offset =>
    ((s.accessed nested b length offset).map fun h => .write h.block byte length offset, s)
  | .read b length offset =>
    ((s.accessed nested b length offset).map fun h => .read h.block length offset, s)
  | .synchronize t => ((s.stream t).map fun _ => .synchronize t, s)
  | .destroy t => ((s.stream t).map fun _ => .destroy t, s)
  | .pending t => ((s.stream t).map fun _ => .pending t, s)
  | .free b t =>
    match s.freed here b t with
    | .error e => (.error e, s)
    | .ok h => (.ok (.free h.resource h.block (h.key t)), s.lose b)
  | .enqueue t acts =>
    match s.stream t with
    | .error e => (.error e, s)
    | .ok _ => ((resolveAll here true s acts).1.map (.enqueue t), (resolveAll here true s acts).2)

def resolveAll (here : StreamId) (nested : Bool) (s : Session) : Script → Checked Operation × Session
  | [] => (.ok [], s)
  | a :: rest =>
    match resolveAct here nested s a with
    | (.error e, s) => (.error e, s)
    | (.ok act, s) =>
      ((resolveAll here nested s rest).1.map (act :: ·), (resolveAll here nested s rest).2)
end

/-- The operation that a script on stream `here` stands for. -/
def resolve (s : Session) (here : StreamId) (script : Script) : Checked Operation × Session :=
  resolveAll here false s script

end Session

end StreamMemory
