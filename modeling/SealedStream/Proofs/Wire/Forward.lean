import Mathlib.Tactic.Common
import SealedStream.Proofs.Record.RoundTrip
import SealedStream.Signature.File

/-!
Files are judged from the front: a verdict on an image says what the verdict is with more bytes
behind it.

An image that ends too soon is short of fewer bytes then, an image that goes on too long goes on
longer, and any other damage stays what it was. What has been cut off at the end is told by this
from what has been damaged.
-/

namespace SealedStream

variable {α β : Type}

/-- What becomes of an error with `more` bytes behind the image, where that is settled: the bytes
may be all that was needed. -/
def DecodeError.behind (more : ℕ) : DecodeError → Option DecodeError
  | .truncated offset needed =>
    if more < needed then some (.truncated offset (needed - more)) else none
  | e => some e

/-- A decoder judges an image from its front, so that its verdict holds with any bytes behind it. -/
structure JudgesFromFront (decode : Bytes → Except DecodeError α) : Prop where
  accepted : ∀ {image more a}, more ≠ [] → decode image = .ok a →
    decode (image ++ more) = .error (.trailingBytes more.length)
  trailing : ∀ {image more remaining}, more ≠ [] →
    decode image = .error (.trailingBytes remaining) →
    decode (image ++ more) = .error (.trailingBytes (remaining + more.length))
  short : ∀ {image more offset needed}, more ≠ [] → more.length < needed →
    decode image = .error (.truncated offset needed) →
    decode (image ++ more) = .error (.truncated offset (needed - more.length))
  damaged : ∀ {image more e}, more ≠ [] → decode image = .error e →
    (∀ remaining, e ≠ .trailingBytes remaining) → (∀ offset needed, e ≠ .truncated offset needed) →
    decode (image ++ more) = .error e
  /-- Whatever is cut off the end of a good file, the rest is found to be cut short. -/
  cut : ∀ {image more a}, more ≠ [] → decode (image ++ more) = .ok a →
    ∃ offset needed, needed ≤ more.length ∧ decode image = .error (.truncated offset needed)

def Cursor.extend (c : Cursor) (more : Bytes) : Cursor := ⟨c.rest ++ more, c.offset⟩

@[simp] lemma Cursor.length_extend (c : Cursor) (more : Bytes) :
    (c.extend more).rest.length = c.rest.length + more.length := List.length_append

namespace Reader

variable {r : Reader α} {f : α → Reader β} {c : Cursor}

/-- From here the reader finds the same with any bytes behind the image, and it leaves it to others
whether anything is left. -/
structure ForwardAt (r : Reader α) (c : Cursor) : Prop where
  value : ∀ {a d} (more), r c = .ok (a, d) → r (c.extend more) = .ok (a, d.extend more)
  error : ∀ {e e' : DecodeError} {more : Bytes}, r c = .error e → e.behind more.length = some e' →
    r (c.extend more) = .error e'
  ends : ∀ remaining, r c ≠ .error (.trailingBytes remaining)

lemma bind_eq_error {e : DecodeError} : (r >>= f) c = .error e ↔
    r c = .error e ∨ ∃ a d, r c = .ok (a, d) ∧ f a d = .error e := by
  show (r c >>= fun p => f p.1 p.2) = _ ↔ _
  cases hr : r c with
  | error e' => simp [bind, Except.bind]
  | ok p =>
    constructor
    · exact fun hf => Or.inr ⟨p.1, p.2, rfl, hf⟩
    · rintro (⟨⟨⟩⟩ | ⟨_, _, ⟨⟩, hf⟩)
      exact hf

lemma ForwardAt.bind (hr : r.ForwardAt c) (hf : ∀ a d, r c = .ok (a, d) → (f a).ForwardAt d) :
    (r >>= f).ForwardAt c where
  value := by
    intro b d' more h
    obtain ⟨a, d, ha, hb⟩ := bind_eq_ok.mp h
    exact bind_eq_ok.mpr ⟨a, d.extend more, hr.value more ha, (hf a d ha).value more hb⟩
  error := by
    intro e e' more h hbehind
    rcases bind_eq_error.mp h with he | ⟨a, d, ha, he⟩
    · exact bind_eq_error.mpr (Or.inl (hr.error he hbehind))
    · exact bind_eq_error.mpr
        (Or.inr ⟨a, d.extend more, hr.value more ha, (hf a d ha).error he hbehind⟩)
  ends := by
    intro remaining h
    rcases bind_eq_error.mp h with he | ⟨a, d, ha, he⟩
    · exact hr.ends remaining he
    · exact (hf a d ha).ends remaining he

lemma forward_pure (a : α) (c : Cursor) : (pure a : Reader α).ForwardAt c where
  value := by
    rintro _ _ more ⟨⟩
    rfl
  error := by
    rintro _ _ _ ⟨⟩
  ends := by
    rintro _ ⟨⟩

lemma forward_fail {e : DecodeError} (hlasts : ∀ more, e.behind more = some e)
    (hends : ∀ remaining, e ≠ .trailingBytes remaining) (c : Cursor) :
    (fail e : Reader α).ForwardAt c where
  value := by
    rintro _ _ _ ⟨⟩
  error := by
    rintro _ e' more ⟨⟩ hbehind
    rw [hlasts] at hbehind
    cases hbehind
    rfl
  ends := by
    rintro remaining ⟨⟩
    exact hends remaining rfl

/-! ### Fields -/

lemma forward_position (c : Cursor) : position.ForwardAt c where
  value := by
    rintro _ _ more ⟨⟩
    rfl
  error := by
    rintro _ _ _ ⟨⟩
  ends := by
    rintro _ ⟨⟩

lemma take_eq_ite (n : ℕ) (c : Cursor) : take n c =
    if n ≤ c.rest.length then .ok (c.rest.take n, ⟨c.rest.drop n, c.offset + n⟩)
    else .error (.truncated c.offset (n - c.rest.length)) := by
  have hiff : (c.rest.take n).length = n ↔ n ≤ c.rest.length := by
    rw [List.length_take]
    omega
  by_cases h : n ≤ c.rest.length
  · rw [take, if_pos (hiff.mpr h), if_pos h]
  · rw [take, if_neg (mt hiff.mp h), if_neg h, List.take_of_length_le (by omega)]

lemma forward_take (n : ℕ) (c : Cursor) : (take n).ForwardAt c where
  value := by
    intro bs d more h
    rw [take_eq_ite] at h
    split at h
    · rename_i hle
      cases h
      rw [take_eq_ite, Cursor.length_extend, if_pos (by omega)]
      simp [Cursor.extend, List.take_append_of_le_length hle, List.drop_append_of_le_length hle]
    · cases h
  error := by
    intro e e' more h hbehind
    rw [take_eq_ite] at h
    split at h
    · cases h
    · cases h
      simp only [DecodeError.behind, Option.ite_none_right_eq_some, Option.some.injEq] at hbehind
      obtain ⟨hshort, rfl⟩ := hbehind
      rw [take_eq_ite, Cursor.length_extend, if_neg (by omega), Nat.sub_sub]
      rfl
  ends := by
    intro remaining h
    rw [take_eq_ite] at h
    split at h <;> cases h

lemma forward_byte (c : Cursor) : byte.ForwardAt c :=
  (forward_take 1 c).bind fun _ d _ => forward_pure _ d

lemma forward_int32 (c : Cursor) : int32.ForwardAt c :=
  (forward_take 4 c).bind fun _ d _ => forward_pure _ d

lemma forward_int64 (c : Cursor) : int64.ForwardAt c :=
  (forward_take 8 c).bind fun _ d _ => forward_pure _ d

lemma forward_length (c : Cursor) : length.ForwardAt c := by
  refine (forward_position c).bind fun offset d _ => (forward_int32 d).bind fun n d' _ => ?_
  by_cases hneg : n < 0
  · rw [if_pos hneg]
    exact forward_fail (fun _ => rfl) (by nofun) d'
  · rw [if_neg hneg]
    exact forward_pure _ d'

lemma forward_payload (c : Cursor) : payload.ForwardAt c :=
  (forward_length c).bind fun n d _ => forward_take n d

lemma forward_ofValue (v : Except ValueError α) (c : Cursor) : (ofValue v).ForwardAt c := by
  cases v with
  | ok a => exact forward_pure a c
  | error e => exact forward_fail (fun _ => rfl) (by nofun) c

lemma forward_hash (c : Cursor) : hash.ForwardAt c := by
  refine (forward_int32 c).bind fun id d₁ _ => ?_
  refine (forward_ofValue _ d₁).bind fun kind d₂ _ => ?_
  refine (forward_position d₂).bind fun offset d₃ _ => ?_
  refine (forward_length d₃).bind fun n d₄ _ => ?_
  by_cases hlen : n ≠ kind.length
  · rw [if_pos hlen]
    exact forward_fail (fun _ => rfl) (by nofun) d₄
  · rw [if_neg hlen]
    exact (forward_take n d₄).bind fun bs d₅ _ => forward_ofValue _ d₅

/-! ### Whole images -/

lemma run_eq (r : Reader α) (image : Bytes) : r.run image =
    match r ⟨image, 0⟩ with
    | .error e => .error e
    | .ok (a, d) => if d.rest = [] then .ok a else .error (.trailingBytes d.rest.length) := by
  show Except.map _ (r ⟨image, 0⟩ >>= fun p => (done >>= fun _ => pure p.1 : Reader α) p.2) = _
  cases r ⟨image, 0⟩ with
  | error e => rfl
  | ok p =>
    show Except.map _ (done p.2 >>= _) = if p.2.rest = [] then _ else _
    by_cases hrest : p.2.rest = []
    · rw [done, if_pos hrest, if_pos hrest]
      rfl
    · rw [done, if_neg hrest, if_neg hrest]
      rfl

lemma run_eq_error {image : Bytes} {e : DecodeError} (h : r.run image = .error e) :
    r ⟨image, 0⟩ = .error e ∨
      ∃ a d, r ⟨image, 0⟩ = .ok (a, d) ∧ e = .trailingBytes d.rest.length := by
  rw [run_eq] at h
  split at h
  · rename_i hread
    cases h
    exact .inl hread
  · rename_i a d hread
    split at h <;> cases h
    exact .inr ⟨a, d, hread, rfl⟩

section

variable {image more : Bytes} {a : α} {e e' : DecodeError}

lemma run_extended {d : Cursor} (hr : r.ForwardAt ⟨image, 0⟩)
    (hne : more ≠ []) (h : r ⟨image, 0⟩ = .ok (a, d)) :
    r.run (image ++ more) = .error (.trailingBytes (d.rest.length + more.length)) := by
  have hread : r ⟨image ++ more, 0⟩ = .ok (a, d.extend more) := hr.value more h
  have hleft : (d.extend more).rest ≠ [] := List.append_ne_nil_of_right_ne_nil _ hne
  rw [run_eq, hread]
  show (if (d.extend more).rest = [] then _ else _) = _
  rw [if_neg hleft, Cursor.length_extend]

lemma run_behind_ok (hr : r.ForwardAt ⟨image, 0⟩) (hne : more ≠ []) (h : r.run image = .ok a) :
    r.run (image ++ more) = .error (.trailingBytes more.length) := by
  obtain ⟨d, hread, hrest⟩ := read_of_run h
  rw [run_extended hr hne hread, hrest]
  simp

lemma run_behind_error (hr : r.ForwardAt ⟨image, 0⟩) (h : r.run image = .error e)
    (hends : ∀ remaining, e ≠ .trailingBytes remaining)
    (hbehind : e.behind more.length = some e') : r.run (image ++ more) = .error e' := by
  rcases run_eq_error h with hread | ⟨b, d, -, rfl⟩
  · have hmore : r ⟨image ++ more, 0⟩ = .error e' := hr.error hread hbehind
    rw [run_eq, hmore]
  · exact (hends _ rfl).elim

lemma run_behind_trailing {remaining : ℕ} (hr : r.ForwardAt ⟨image, 0⟩) (hne : more ≠ [])
    (h : r.run image = .error (.trailingBytes remaining)) :
    r.run (image ++ more) = .error (.trailingBytes (remaining + more.length)) := by
  rcases run_eq_error h with hread | ⟨b, d, hread, heq⟩
  · exact (hr.ends _ hread).elim
  · cases heq
    exact run_extended hr hne hread

end

/-- **A reader that goes forward** makes a decoder that judges from the front. -/
theorem judgesFromFront_run (hr : ∀ c, r.ForwardAt c) : JudgesFromFront r.run := by
  have hshort {image more offset needed} (hlt : more.length < needed)
      (h : r.run image = .error (.truncated offset needed)) :
      r.run (image ++ more) = .error (.truncated offset (needed - more.length)) :=
    run_behind_error (hr _) h nofun (if_pos hlt)
  have hdamaged {image more e} (h : r.run image = .error e)
      (hends : ∀ remaining, e ≠ .trailingBytes remaining)
      (hcut : ∀ offset needed, e ≠ .truncated offset needed) :
      r.run (image ++ more) = .error e := by
    refine run_behind_error (hr _) h hends ?_
    cases e with
    | truncated offset needed => exact (hcut offset needed rfl).elim
    | _ => rfl
  refine ⟨run_behind_ok (hr _), run_behind_trailing (hr _), fun _ => hshort, fun _ => hdamaged, ?_⟩
  -- an image is accepted with bytes behind only if just these were missing
  intro image more a hne hall
  cases h : r.run image with
  | ok b =>
    rw [run_behind_ok (hr _) hne h] at hall
    cases hall
  | error e =>
    cases e with
    | truncated offset needed =>
      refine ⟨offset, needed, ?_, rfl⟩
      by_contra hlt
      rw [hshort (by omega) h] at hall
      cases hall
    | trailingBytes remaining =>
      rw [run_behind_trailing (hr _) hne h] at hall
      cases hall
    | _ =>
      rw [hdamaged h nofun nofun] at hall
      cases hall

end Reader

/-! ### Record files and signature files -/

open Reader

lemma RecordFile.forward_entry (c : Cursor) : readEntry.ForwardAt c := by
  refine (forward_position c).bind fun offset d₁ _ => (forward_byte d₁).bind fun tag d₂ _ => ?_
  by_cases hitem : tag = Section.itemTag
  · rw [if_pos hitem]
    refine (forward_payload d₂).bind fun transaction d₃ _ => ?_
    exact (forward_payload d₃).bind fun record d₄ _ => forward_pure _ d₄
  · rw [if_neg hitem]
    by_cases hend : tag = Section.endTag
    · rw [if_pos hend]
      exact forward_pure _ d₂
    · rw [if_neg hend]
      exact forward_fail (fun _ => rfl) (by nofun) d₂

/-- The induction is on how much is left: each item takes its tag off the front. -/
lemma RecordFile.forward_items (c : Cursor) : Reader.ForwardAt readItems c := by
  induction hn : c.rest.length using Nat.strongRecOn generalizing c with
  | ind n ih =>
    rw [readItems_eq]
    refine (forward_entry c).bind fun e d hentry => ?_
    cases e with
    | finish => exact forward_pure _ d
    | item i =>
      refine (ih _ (hn ▸ readEntry_shrinks hentry) d rfl).bind fun items d' _ => ?_
      exact forward_pure _ d'

lemma RecordFile.forward_reader (c : Cursor) : RecordFile.reader.ForwardAt c := by
  refine (forward_int32 c).bind fun version d₁ _ => (forward_int32 d₁).bind fun major d₂ _ => ?_
  refine (forward_int32 d₂).bind fun minor d₃ _ => (forward_int32 d₃).bind fun patch d₄ _ => ?_
  refine (forward_hash d₄).bind fun start d₅ _ => (forward_items d₅).bind fun items d₆ _ => ?_
  refine (forward_hash d₆).bind fun finish d₇ _ => (forward_int64 d₇).bind fun block d₈ _ => ?_
  exact forward_pure _ d₈

lemma SignedHash.forward_reader (c : Cursor) : SignedHash.reader.ForwardAt c := by
  refine (forward_hash c).bind fun h d₁ _ => (forward_int32 d₁).bind fun id d₂ _ => ?_
  cases Scheme.ofId? id with
  | none => exact forward_fail (fun _ => rfl) (by nofun) d₂
  | some scheme =>
    refine (forward_length d₂).bind fun n d₃ _ => (forward_int32 d₃).bind fun checksum d₄ _ => ?_
    by_cases hchecksum : checksum ≠ checksumOf n
    · rw [if_pos hchecksum]
      exact forward_fail (fun _ => rfl) (by nofun) d₄
    · rw [if_neg hchecksum]
      exact (forward_take n d₄).bind fun signature d₅ _ => forward_pure _ d₅

lemma SignatureFile.forward_reader (n : ℕ) (c : Cursor) : (SignatureFile.reader n).ForwardAt c := by
  refine (forward_take n c).bind fun header d₁ _ => ?_
  refine (SignedHash.forward_reader d₁).bind fun file d₂ _ => ?_
  exact (SignedHash.forward_reader d₂).bind fun metadata d₃ _ => forward_pure _ d₃

/-- **Files are judged strictly from the front**, record files and signature files with a header of
any length: behind a good file all that follows is too much, an image that is short of bytes is
short of fewer, other damage stays what it is, and a good file that has been cut anywhere is found
to be cut. -/
theorem decoders_judge_from_front :
    JudgesFromFront RecordFile.decode ∧ ∀ n, JudgesFromFront (SignatureFile.decode n) :=
  ⟨judgesFromFront_run RecordFile.forward_reader,
    fun n => judgesFromFront_run (SignatureFile.forward_reader n)⟩

end SealedStream
