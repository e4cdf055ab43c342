import SealedStream.Stream.Object

/-!
Links in the hands of many.

Handles and objects hold links, and copies of either share the slot. Every act on a link is one
step under the lock of its slot; a reader that has to wait takes one step when it calls and one
whenever it wakes up. So the acts of all parties come one after the other, in whatever order.
-/

namespace SealedStream

/-- What a slot has for its readers. -/
def LinkState.hash? : LinkState → Option Hash
  | .resolved h => some h
  | _ => none

/-! ### What the parties do -/

/-- Who holds a link. -/
inductive Holder where
  | handle (i : Nat)
  | object (i : Nat)
  deriving DecidableEq

/-- An act of one party. Asking for the value is an `enter`, and then a `poll` at each awakening. -/
inductive Deed where
  | link
  | object (item : Item) (timestamp : Timestamp) (alignment : Alignment)
  | copy (h : Holder)
  | duplicate (i : Nat)
  | attach (i : Nat) (h : Holder)
  | token
  | cancel (t : Token)
  | resolve (h : Holder) (hash : Hash)
  | release (h : Holder)
  | peek (h : Holder)
  | ask (h : Holder)
  | enter (h : Holder) (t : Token)
  | poll (call : Nat)
  deriving DecidableEq

/-- What an act was done to, and what it was answered. -/
inductive Observation where
  | made (l : Link)
  | cancelled (t : Token)
  | resolved (l : Link) (hash : Hash) (did : Bool)
  | released (l : Link) (did : Bool)
  | peeked (l : Link) (found : Option Hash)
  | asked (l : Link) (yes : Bool)
  | entered (call : Nat) (l : Link) (t : Token) (answer : Option (Except LinkError Hash))
  | polled (call : Nat) (l : Link) (t : Token) (answer : Option (Except LinkError Hash))

/-- Whose link an act would settle. -/
def Deed.settles : Deed → Option Holder
  | .resolve h _ | .release h => some h
  | _ => none

/-- All slots and flags, who holds which link, the calls that wait, and all that was observed. -/
structure Exchange where
  pipeline : Pipeline
  handles : List Link
  objects : List StreamObject
  calls : Nat
  waiting : Nat → Option (Link × Token)
  history : List Observation

namespace Exchange

def start : Exchange := ⟨Pipeline.empty, [], [], 0, fun _ => none, []⟩

/-- All links that somebody holds. -/
def links (s : Exchange) : List Link := s.handles ++ s.objects.map (·.link)

def link? (s : Exchange) : Holder → Option Link
  | .handle i => s.handles[i]?
  | .object i => s.objects[i]?.map (·.link)

/-- An act on the link of a holder; nothing comes of it if there is none. -/
def through (s : Exchange) (h : Holder) (act : Link → Exchange) : Exchange :=
  match s.link? h with
  | some l => act l
  | none => s

def note (s : Exchange) (p : Pipeline) (e : Observation) : Exchange :=
  { s with pipeline := p, history := s.history ++ [e] }

/-- An attempt to settle a link, with what is observed of it. -/
def settle (s : Exchange) (l : Link) (st : LinkState) (seen : Bool → Observation) : Exchange :=
  s.note (s.pipeline.settle l st).2 (seen (s.pipeline.settle l st).1)

/-- A call; it waits unless it is answered at once. -/
def enter (s : Exchange) (l : Link) (t : Token) : Exchange :=
  { s.note s.pipeline (.entered s.calls l t (s.pipeline.enter t)) with
    calls := s.calls + 1
    waiting := fun c =>
      if c = s.calls then (if (s.pipeline.enter t).isSome then none else some (l, t))
      else s.waiting c }

/-- A waiting call wakes up; it is over when it is answered. -/
def poll (s : Exchange) (call : Nat) (l : Link) (t : Token) : Exchange :=
  { s.note s.pipeline (.polled call l t (s.pipeline.poll l t)) with
    waiting := fun c =>
      if c = call ∧ (s.pipeline.poll l t).isSome then none else s.waiting c }

/-- One act. Nothing comes of one that names a holder, a token or a call that is not there. -/
def step (s : Exchange) : Deed → Exchange
  | .link =>
    let (l, p) := s.pipeline.newLink .pending
    { s.note p (.made l) with handles := s.handles ++ [l] }
  | .object item timestamp alignment =>
    let (l, p) := s.pipeline.newLink .pending
    { s.note p (.made l) with objects := s.objects ++ [⟨item, timestamp, l, alignment⟩] }
  | .copy h => { s with handles := s.handles ++ (s.link? h).toList }
  | .duplicate i => { s with objects := s.objects ++ s.objects[i]?.toList }
  | .attach i h => s.through h fun l =>
    { s with objects := s.objects.modify i fun o => { o with link := l } }
  | .token => { s with pipeline := s.pipeline.newToken.2 }
  | .cancel t =>
    if t.flag < s.pipeline.tokens then s.note (s.pipeline.cancel t) (.cancelled t) else s
  | .resolve h hash => s.through h fun l => s.settle l (.resolved hash) (.resolved l hash)
  | .release h => s.through h fun l => s.settle l .released (.released l)
  | .peek h => s.through h fun l => s.note s.pipeline (.peeked l (s.pipeline.hash? l))
  | .ask h => s.through h fun l => s.note s.pipeline (.asked l (s.pipeline.isResolved l))
  | .enter h t => s.through h fun l => if t.flag < s.pipeline.tokens then s.enter l t else s
  | .poll call =>
    match s.waiting call with
    | some (l, t) => s.poll call l t
    | none => s

def run (s : Exchange) (deeds : List Deed) : Exchange := deeds.foldl step s

/-- After all of these acts, from the beginning. -/
def reached (deeds : List Deed) : Exchange := start.run deeds

end Exchange

end SealedStream
