import Mathlib.Tactic.Common
import SealedStream.Proofs.Storage.FileView
import SealedStream.Record.Section

/-!
Writing fields and sections to an output, as a view of the storage sees it.

A write that succeeds has put all of its bytes behind those that were there; one that fails has
left the other files alone, and happens only if the storage fails or a field has no form.
-/

namespace SealedStream

open Function (update)

/-! ### Sections are their fields -/

section Sinks

variable {τ : Type} [Sink τ]

lemma Field.write_append (xs ys : List Field) (t : τ) :
    Field.write (xs ++ ys) t =
      match Field.write xs t with
      | (.ok (), t) => Field.write ys t
      | (.error e, t) => (.error e, t) := by
  induction xs generalizing t with
  | nil => rfl
  | cons f xs ih =>
    cases f with
    | error e => rfl
    | ok bs =>
      simp only [List.cons_append, Field.write]
      rcases Sink.writeAll bs t with ⟨r, u⟩
      cases r with
      | error e => rfl
      | ok _ => exact ih u

lemma Section.writeList_eq (sections : List Section) (t : τ) :
    Section.writeList sections t = Field.write (sections.flatMap Section.fields) t := by
  induction sections generalizing t with
  | nil => rfl
  | cons s rest ih =>
    rw [List.flatMap_cons, Field.write_append, Section.writeList, Section.write]
    rcases Field.write s.fields t with ⟨r, u⟩
    cases r with
    | error e => rfl
    | ok _ => exact ih u

end Sinks

/-! ### Through a view -/

namespace FileView

variable {σ ω : Type} [Storage σ ω] (V : FileView σ ω)

/-- At most the file at a path has changed, and its output has taken `bs` in all. -/
structure Takes (p : Path) (s s' : σ) (o : ω) (bs : Bytes) : Prop where
  sound : V.Sound s'
  file : ∃ c, V.file s' = update (V.file s) p (some c)
  opened : V.Open s' o p bs

variable {V} {p : Path} {s s' s₁ : σ} {o o' o₁ : ω} {taken bs data : Bytes}

lemma Takes.refl (hs : V.Sound s) (ho : V.Open s o p bs) : V.Takes p s s o bs := by
  obtain ⟨c, hc⟩ := Option.isSome_iff_exists.mp (V.open_isSome hs ho)
  exact ⟨hs, ⟨c, by rw [← hc, Function.update_eq_self]⟩, ho⟩

lemma Takes.trans (h : V.Takes p s s₁ o₁ taken) (h' : V.Takes p s₁ s' o bs) :
    V.Takes p s s' o bs := by
  obtain ⟨c, hc⟩ := h.file
  obtain ⟨d, hd⟩ := h'.file
  exact ⟨h'.sound, ⟨d, by rw [hd, hc, Function.update_idem]⟩, h'.opened⟩

/-- What may come of writing `data` to an output that has taken `taken`. -/
inductive Puts (V : FileView σ ω) (p : Path) (taken : Bytes) (data : Except Failure Bytes)
    (s : σ) : Except Failure Unit × ω × σ → Prop where
  | all {d : Bytes} {s' : σ} {o : ω} (form : data = .ok d)
    (takes : V.Takes p s s' o (taken ++ d)) : Puts V p taken data s (.ok (), o, s')
  | part {d : Bytes} {s' : σ} {o : ω} {e : Failure} (takes : V.Takes p s s' o d)
    (fault : ¬(V.NeverFails ∧ data.isOk)) : Puts V p taken data s (.error e, o, s')

lemma Puts.after {x d : Bytes} {r : Except Failure Unit × ω × σ}
    (h : V.Takes p s s₁ o₁ (taken ++ x)) (h' : V.Puts p (taken ++ x) (.ok d) s₁ r) :
    V.Puts p taken (.ok (x ++ d)) s r := by
  cases h' with
  | all form takes =>
    cases form
    exact .all rfl (by simpa using h.trans takes)
  | part takes fault => exact .part (h.trans takes) fault

lemma puts_writeWithin {n : ℕ} (hn : V.NeverFails → data.length ≤ n) (hs : V.Sound s)
    (ho : V.Open s o p taken) :
    V.Puts p taken (.ok data) s (Sink.writeWithin n data (o, s)) := by
  induction n generalizing data s o taken with
  | zero =>
    rcases data with _ | ⟨b, bs⟩
    · exact .all rfl (by simpa [Sink.writeWithin] using Takes.refl hs ho)
    · exact .part (Takes.refl hs ho) fun h => by simpa using hn h.1
  | succ n ih =>
    rcases data with _ | ⟨b, bs⟩
    · exact .all rfl (by simpa [Sink.writeWithin] using Takes.refl hs ho)
    rw [Sink.writeWithin]
    rcases hw : Storage.write (b :: bs) o s with ⟨r, o', s'⟩
    have hacc : Sink.accept (b :: bs) (o, s) = (r, (o', s')) := by
      simp only [Sink.accept, hw]
    -- a call that takes nothing does not happen where nothing fails
    have hfault (h : ∀ k, k ≠ 0 → r ≠ .ok k) : ¬V.NeverFails := by
      intro hV
      obtain ⟨k, _, _, hk, heq⟩ := hV.write hs ho (List.cons_ne_nil b bs)
      rw [hw] at heq
      exact h k hk (congrArg Prod.fst heq)
    rw [hacc]
    rcases r with e | k | k
    case ok.zero =>
      obtain ⟨hs', -, ho', hf⟩ := V.write_ok hs ho hw
      refine .part ⟨hs', hf, ho'⟩ fun h => hfault ?_ h.1
      rintro k hk ⟨⟩
      exact hk rfl
    case ok.succ =>
      obtain ⟨hs', -, ho', hf⟩ := V.write_ok hs ho hw
      have hlen : V.NeverFails → (bs.drop k).length ≤ n := by
        intro hV
        have := hn hV
        simp only [List.length_cons, List.length_drop] at this ⊢
        omega
      have h := ih hlen hs' ho'
      simpa using Puts.after ⟨hs', hf, ho'⟩ h
    case error =>
      obtain ⟨hs', ⟨k, hk, ho'⟩, hf⟩ := V.write_error hs ho hw
      have hbad : ¬V.NeverFails := hfault fun _ _ => by simp
      by_cases he : e.kind = .interrupted
      · obtain rfl := hk he
        have hlen : V.NeverFails → (b :: bs).length ≤ n := fun hV => absurd hV hbad
        have h := ih hlen hs' ho'
        simpa [he] using Puts.after (x := []) ⟨hs', hf, by simpa using ho'⟩ (by simpa using h)
      · simpa [he] using Puts.part ⟨hs', hf, ho'⟩ fun h => hbad h.1

lemma puts_writeAll (data : Bytes) (hs : V.Sound s) (ho : V.Open s o p taken) :
    V.Puts p taken (.ok data) s (Sink.writeAll data (o, s)) :=
  puts_writeWithin (fun _ => Nat.le_add_right _ _) hs ho

lemma puts_fields (fields : List Field) (hs : V.Sound s) (ho : V.Open s o p taken) :
    V.Puts p taken (Field.join fields) s (Field.write fields (o, s)) := by
  induction fields generalizing s o taken with
  | nil => exact .all rfl (by simpa [Field.write] using Takes.refl hs ho)
  | cons f rest ih =>
    cases f with
    | error e =>
      exact .part (Takes.refl hs ho) fun h => by
        simp [Field.join, Except.isOk, Except.toBool] at h
    | ok bs =>
      rw [Field.write, Field.join]
      have h := puts_writeAll bs hs ho
      generalize Sink.writeAll bs (o, s) = r at h
      cases h with
      | part takes fault => exact .part takes fun h => fault ⟨h.1, rfl⟩
      | @all _ s₁ o₁ form takes =>
        cases form
        have h' := ih takes.sound takes.opened
        simp only
        generalize Field.write rest (o₁, s₁) = r at h'
        cases h' with
        | part takes' fault =>
          refine .part (takes.trans takes') fun h => fault ⟨h.1, ?_⟩
          cases hj : Field.join rest <;> simp_all [Except.map, Except.isOk, Except.toBool]
        | all form takes' =>
          rw [form]
          exact .all rfl (by simpa using takes.trans takes')

/-- **Writing sections**: all of their bytes, or a fault. -/
theorem puts_sections (sections : List Section) (hs : V.Sound s) (ho : V.Open s o p taken) :
    V.Puts p taken (Field.join (sections.flatMap Section.fields)) s
      (Section.writeList sections (o, s)) := by
  rw [Section.writeList_eq]
  exact puts_fields _ hs ho

end FileView

end SealedStream
