import SealedStream.Storage.Basic

/-!
A storage that fails on purpose.

A rule makes one operation fail, on the paths that end in its suffix. The real operation is not
tried then, except that closing is done before it fails, and that writing works until a number of
bytes has been taken.
-/

namespace SealedStream

structure FaultRule where
  kind : FailureKind
  suffix : String
  /-- How many bytes an output takes before writing fails. -/
  after : Nat
  deriving DecidableEq, Repr

namespace FaultRule

def applies (r : FaultRule) (p : Path) : Bool := r.suffix.toList.isSuffixOf p.chars

def failure (r : FaultRule) : Failure := ⟨r.kind, some "injected failure"⟩

end FaultRule

/-- The rules in force, at most one for an operation. -/
structure Faults where
  create : Option FaultRule
  write : Option FaultRule
  close : Option FaultRule
  rename : Option FaultRule
  remove : Option FaultRule
  openRead : Option FaultRule
  read : Option FaultRule
  deriving DecidableEq, Repr

def Faults.none : Faults :=
  ⟨Option.none, Option.none, Option.none, Option.none, Option.none, Option.none, Option.none⟩

structure Faulty (σ : Type) where
  inner : σ
  faults : Faults

/-- An output that knows its path and how much it has taken. -/
structure FaultyOutput (ω : Type) where
  inner : ω
  path : Path
  taken : Nat

namespace Faulty

variable {σ ω : Type}

/-- The failure that a rule calls for at a path. -/
def failure? (rule : Option FaultRule) (p : Path) : Option Failure :=
  match rule with
  | some r => if r.applies p then some r.failure else none
  | none => none

/-- The failure that the rule for writing calls for, for an output offered `n` bytes. -/
def writeFailure? (rule : Option FaultRule) (o : FaultyOutput ω) (n : Nat) : Option Failure :=
  match rule with
  | some r => if r.applies o.path ∧ r.after < o.taken + n then some r.failure else none
  | none => none

/-- Does the inner operation, unless a failure is called for. -/
def guarded {α : Type} (failure : Option Failure) (act : σ → Except Failure α × σ)
    (s : Faulty σ) : Except Failure α × Faulty σ :=
  match failure with
  | some f => (.error f, s)
  | none =>
    let (r, inner) := act s.inner
    (r, { s with inner })

instance [Storage σ ω] : Storage (Faulty σ) (FaultyOutput ω) where
  present p s := Storage.present p s.inner
  create p s :=
    let (r, s) := guarded (failure? s.faults.create p) (Storage.create p) s
    (r.map fun inner => ⟨inner, p, 0⟩, s)
  write bs o s :=
    match writeFailure? s.faults.write o bs.length with
    | some f => (.error f, o, s)
    | none =>
      let (r, inner, storage) := Storage.write bs o.inner s.inner
      let taken := match r with
        | .ok n => o.taken + n
        | .error _ => o.taken
      (r, ⟨inner, o.path, taken⟩, { s with inner := storage })
  interruptions o s := Storage.interruptions o.inner s.inner
  close o s :=
    let (r, inner) := Storage.close o.inner s.inner
    match r, failure? s.faults.close o.path with
    | .ok (), some f => (.error f, { s with inner })
    | r, _ => (r, { s with inner })
  rename source target s :=
    guarded (failure? s.faults.rename target) (Storage.rename source target) s
  remove p s := guarded (failure? s.faults.remove p) (Storage.remove p) s
  openRead p s :=
    let (r, s) := guarded (failure? s.faults.openRead p) (Storage.openRead p) s
    match r, failure? s.faults.read p with
    | .ok _, some f => (.ok [.failure f], s)
    | r, _ => (r, s)

end Faulty

end SealedStream
