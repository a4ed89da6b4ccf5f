import JvmLisp.Journal
import JvmLisp.Jvm.Class

/-! # Building a class

The state in which a class is built holds the constant pool, the method body under construction and
the journal. A step that fails keeps what was done before it.
-/

namespace JvmLisp

structure Assembly where
  pool : Jvm.Pool := {}
  body : Jvm.Body := {}
  journal : Array Event := #[]
  /-- The slots of the pool up to here have been noted. -/
  noted : Nat := pool.slots.size

abbrev Build := ExceptT Error (StateM Assembly)

namespace Build

variable {α : Type}

def note (event : Event) : Build Unit :=
  fun ⟨pool, body, journal, noted⟩ => (.ok (), ⟨pool, body, journal.push event, noted⟩)

/-- Adds to the pool, and notes every constant that is new. -/
def interning (step : Jvm.Interning α) : Build α :=
  fun ⟨pool, body, journal, noted⟩ =>
    let (result, pool) := step pool
    let added := (pool.entriesFrom noted).map fun (i, c) => Event.added i c
    (result, ⟨pool, body, journal.appendList added, pool.slots.size⟩)

def intern (item : Jvm.Item) : Build UInt16 :=
  interning (Jvm.Pool.intern item)

def emit (i : Jvm.Instruction) (effect : Int) : Build Unit :=
  fun ⟨pool, body, journal, noted⟩ =>
    match Jvm.Body.emit i effect body with
    | (.ok (), body) => (.ok (), ⟨pool, body, journal.push (.emitted i effect body.depth), noted⟩)
    | (.error e, body) => (.error e, ⟨pool, body, journal, noted⟩)

def emitTimes : Nat → Jvm.Instruction → Int → Build Unit
  | 0, _, _ => pure ()
  | n + 1, i, effect => do
    emit i effect
    emitTimes n i effect

/-- Encodes a class with the pool as it is. -/
def encodeClass (c : Jvm.Class) : Build (List UInt8) := do
  let pool := (← get).pool
  let bytes ← liftExcept (c.encode pool)
  note (.encoded bytes.length pool.size c.methods.size)
  return bytes

end Build
end JvmLisp
