import SealedStream.Proofs.Transfer.Calls
import SealedStream.Proofs.Transfer.Reading
import SealedStream.Transfer.Hashing

/-!
Digesting what a sink takes.

A sink may take a part of an offer or nothing of it, or fail, and do so differently at every call.
The one that digests answers as the sink behind it does, and its digest is that of the bytes which
that one has taken.
-/

namespace SealedStream

/-! ### What was taken -/

/-- A sink with a record of what it was offered and what it answered. -/
structure Recorded (τ : Type) where
  inner : τ
  offers : List (Bytes × Except Failure ℕ)

namespace Recorded

def new {τ : Type} (inner : τ) : Recorded τ := ⟨inner, []⟩

/-- How much of an offer was taken, by its answer. -/
def share : Bytes × Except Failure ℕ → Bytes
  | (bs, .ok n) => bs.take n
  | (_, .error _) => []

def taken {τ : Type} (t : Recorded τ) : Bytes := t.offers.flatMap share

variable {τ : Type} [Sink τ]

instance : Sink (Recorded τ) where
  accept bs t := ((Sink.accept bs t.inner).1,
    ⟨(Sink.accept bs t.inner).2, t.offers ++ [(bs, (Sink.accept bs t.inner).1)]⟩)
  interruptions t := Sink.interruptions t.inner

lemma taken_accept (bs : Bytes) (t : Recorded τ) :
    (Sink.accept bs t).2.taken = t.taken ++ share (bs, (Sink.accept bs t).1) := by
  show (t.offers ++ [_]).flatMap share = _
  rw [List.flatMap_append, List.flatMap_singleton]
  rfl

lemma alike : Sink.Alike (τ := Recorded τ) fun r t => r.inner = t where
  accept := by
    rintro r _ rfl bs
    exact ⟨rfl, rfl⟩
  interruptions := by
    rintro r _ rfl
    rfl

end Recorded

namespace Sink

/-- What a call has taken, as far as its answer tells. -/
inductive Call.Took : Call → Answer → Bytes → Prop where
  | offered {bs : Bytes} {n : ℕ} : Took (.offer bs) (.offered (.ok n)) (bs.take n)
  | refused {bs : Bytes} {e : Failure} : Took (.offer bs) (.offered (.error e)) []
  | written {bs : Bytes} : Took (.write bs) (.written (.ok ())) bs
  | broken {bs front : Bytes} {e : Failure} (h : front <+: bs) :
    Took (.write bs) (.written (.error e)) front

/-- What each of the calls has taken. -/
inductive TookEach : List Call → List Answer → List Bytes → Prop where
  | nil : TookEach [] [] []
  | cons {c : Call} {a : Answer} {bs : Bytes} {calls : List Call} {answers : List Answer}
    {pieces : List Bytes} (first : c.Took a bs) (rest : TookEach calls answers pieces) :
    TookEach (c :: calls) (a :: answers) (bs :: pieces)

variable {τ : Type} [Sink τ]

/-- A write takes a front of the bytes, and all of them if it succeeds. The induction is on the
calls that are left. -/
lemma taken_writeWithin (n : ℕ) (bs : Bytes) (t : Recorded τ) :
    ∃ front, (writeWithin n bs t).2.taken = t.taken ++ front ∧ front <+: bs ∧
      ((writeWithin n bs t).1 = .ok () → front = bs) := by
  induction n generalizing bs t with
  | zero =>
    refine ⟨[], ?_, List.nil_prefix, ?_⟩ <;> cases bs <;> simp [writeWithin]
  | succ n ih =>
    cases bs with
    | nil => exact ⟨[], (List.append_nil _).symm, List.nil_prefix, fun _ => rfl⟩
    | cons b bs =>
      have htaken := t.taken_accept (b :: bs)
      rw [writeWithin]
      rcases haccept : Sink.accept (b :: bs) t with ⟨e | _ | k, t'⟩ <;> rw [haccept] at htaken
      · replace htaken : t'.taken = t.taken := htaken.trans (List.append_nil _)
        simp only
        split
        · rw [← htaken]
          exact ih (b :: bs) t'
        · exact ⟨[], by rw [htaken, List.append_nil], List.nil_prefix, by simp⟩
      · exact ⟨[], htaken, List.nil_prefix, by simp⟩
      · -- what this call has taken stands before the front of the rest
        obtain ⟨front, hfront, hprefix, hall⟩ := ih (bs.drop k) t'
        refine ⟨b :: bs.take k ++ front, ?_, ?_, ?_⟩
        · rw [hfront, htaken, List.append_assoc]
          rfl
        · conv_rhs => rw [← List.take_append_drop k bs]
          exact List.cons_prefix_cons.mpr ⟨rfl, (List.prefix_append_right_inj _).mpr hprefix⟩
        · intro hok
          rw [hall hok, List.cons_append, List.take_append_drop]

lemma taken_call (c : Call) (t : Recorded τ) :
    ∃ bs, c.Took (call c t).1 bs ∧ (call c t).2.taken = t.taken ++ bs := by
  cases c with
  | offer bs =>
    refine ⟨_, ?_, t.taken_accept bs⟩
    rw [call]
    cases (Sink.accept bs t).1 with
    | ok n => exact .offered
    | error e => exact .refused
  | write bs =>
    obtain ⟨front, htaken, hprefix, hall⟩ := taken_writeWithin (bs.length + interruptions t) bs t
    refine ⟨front, ?_, htaken⟩
    rw [call, writeAll]
    cases hanswer : (writeWithin (bs.length + interruptions t) bs t).1 with
    | ok _ =>
      rw [hall hanswer]
      exact .written
    | error e => exact .broken hprefix

lemma taken_callEach (calls : List Call) (t : Recorded τ) :
    ∃ pieces, TookEach calls (callEach calls t).1 pieces ∧
      (callEach calls t).2.taken = t.taken ++ pieces.flatten := by
  induction calls generalizing t with
  | nil => exact ⟨[], .nil, (List.append_nil _).symm⟩
  | cons c rest ih =>
    obtain ⟨bs, hfirst, htaken⟩ := taken_call c t
    obtain ⟨pieces, hrest, hend⟩ := ih (call c t).2
    refine ⟨bs :: pieces, .cons hfirst hrest, ?_⟩
    rw [callEach, hend, htaken, List.flatten_cons, List.append_assoc]

end Sink

namespace Hashing

open Sink

variable {τ : Type} [Sink τ] {bs : Bytes} {t : Hashing τ} {inner : τ}

lemma accept_of_ok {n : ℕ} (h : accept bs t.inner = (.ok n, inner)) :
    accept bs t = (.ok n, ⟨inner, t.hasher.update (bs.take n)⟩) := by
  simp only [accept, h]

lemma accept_of_error {e : Failure} (h : accept bs t.inner = (.error e, inner)) :
    accept bs t = (.error e, ⟨inner, t.hasher⟩) := by
  simp only [accept, h]

lemma alike : Alike (τ := Hashing τ) fun h t => h.inner = t where
  accept := by
    rintro h _ rfl bs
    rcases haccept : accept bs h.inner with ⟨e | n, inner⟩
    · rw [accept_of_error haccept]
      exact ⟨rfl, rfl⟩
    · rw [accept_of_ok haccept]
      exact ⟨rfl, rfl⟩
  interruptions := by
    rintro h _ rfl
    rfl

/-- A digest keeps up with a record: it has been fed what the record says was taken. -/
lemma alike_recorded : Alike (τ := Hashing τ) (υ := Recorded τ) fun h r =>
    h.inner = r.inner ∧ h.hasher = Sha2.Hasher.new384.update r.taken where
  accept := by
    rintro h r ⟨hinner, hfed⟩ bs
    have htaken := r.taken_accept bs
    rcases haccept : accept bs r.inner with ⟨e | n, inner⟩
    · have hanswer : (accept bs r).1 = .error e := congrArg Prod.fst haccept
      rw [hanswer] at htaken ⊢
      rw [accept_of_error (hinner ▸ haccept)]
      refine ⟨rfl, (congrArg Prod.snd haccept).symm, ?_⟩
      rw [htaken, Recorded.share, List.append_nil, hfed]
    · have hanswer : (accept bs r).1 = .ok n := congrArg Prod.fst haccept
      rw [hanswer] at htaken ⊢
      rw [accept_of_ok (hinner ▸ haccept)]
      refine ⟨rfl, (congrArg Prod.snd haccept).symm, ?_⟩
      rw [htaken, Recorded.share, ← Sha2.Hasher.update_append, hfed]
  interruptions := by
    rintro h r ⟨hinner, -⟩
    exact congrArg interruptions hinner

lemma hash_callEach (calls : List Call) (t : τ) :
    (callEach calls (new t)).2.hash = Hash.digest (callEach calls (Recorded.new t)).2.taken := by
  have hstart : (new t).hasher = Sha2.Hasher.new384.update (Recorded.new t).taken :=
    Source.new384_update_nil.symm
  obtain ⟨-, -, hfed⟩ := alike_recorded.callEach calls (t := new t) ⟨rfl, hstart⟩
  rw [hash, hfed, Hash.ofHasher_update]

/-- **What is digested is what the sink has taken**, whatever it is and whatever is asked of it: its
answers and what becomes of it are as without the digest, and the digest is that of all the bytes
that it has taken, in order. So it makes no difference how these came to be taken. -/
theorem digests_taken (calls : List Call) (t : τ) :
    (callEach calls (new t)).1 = (callEach calls t).1 ∧
      (callEach calls (new t)).2.inner = (callEach calls t).2 ∧
      (callEach calls (Recorded.new t)).1 = (callEach calls t).1 ∧
      (callEach calls (Recorded.new t)).2.inner = (callEach calls t).2 ∧
      (∃ pieces, TookEach calls (callEach calls t).1 pieces ∧
        (callEach calls (Recorded.new t)).2.taken = pieces.flatten) ∧
      (callEach calls (new t)).2.hash = Hash.digest (callEach calls (Recorded.new t)).2.taken ∧
      ∀ {υ : Type} [Sink υ] (others : List Call) (u : υ),
        (callEach others (Recorded.new u)).2.taken = (callEach calls (Recorded.new t)).2.taken →
          (callEach others (new u)).2.hash = (callEach calls (new t)).2.hash := by
  obtain ⟨hanswers, hinner⟩ := alike.callEach calls (t := new t) rfl
  obtain ⟨hanswers', hinner'⟩ := Recorded.alike.callEach calls (t := Recorded.new t) rfl
  obtain ⟨pieces, htook, htaken⟩ := taken_callEach calls (Recorded.new t)
  refine ⟨hanswers, hinner, hanswers', hinner', ⟨pieces, hanswers' ▸ htook, htaken⟩,
    hash_callEach calls t, ?_⟩
  intro υ _ others u hsame
  rw [hash_callEach, hash_callEach, hsame]

/-- A sink that is full after four bytes, and takes two of them a call at most, against one that
takes everything at once. -/
theorem digests_taken_cut :
    (callEach [.write [1, 2, 3, 4]] (Recorded.new (⟨[]⟩ : Buffer))).2.taken =
        (callEach [.offer [1], .write [2, 3], .offer [], .write [4, 5], .offer [6]]
          (Recorded.new (⟨some 2, some 4, #[]⟩ : Limited))).2.taken ∧
      (callEach [.write [1, 2, 3, 4]] (new (⟨[]⟩ : Buffer))).2.hash =
        (callEach [.offer [1], .write [2, 3], .offer [], .write [4, 5], .offer [6]]
          (new (⟨some 2, some 4, #[]⟩ : Limited))).2.hash := by
  have hsame : (callEach [.write [1, 2, 3, 4]] (Recorded.new (⟨[]⟩ : Buffer))).2.taken =
      (callEach [.offer [1], .write [2, 3], .offer [], .write [4, 5], .offer [6]]
        (Recorded.new (⟨some 2, some 4, #[]⟩ : Limited))).2.taken := by decide
  obtain ⟨-, -, -, -, -, -, hcut⟩ :=
    digests_taken [.offer [1], .write [2, 3], .offer [], .write [4, 5], .offer [6]]
      (⟨some 2, some 4, #[]⟩ : Limited)
  exact ⟨hsame, hcut _ _ hsame⟩

end Hashing

end SealedStream
