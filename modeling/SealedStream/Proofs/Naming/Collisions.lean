import SealedStream.Proofs.Naming

/-!
When the names of a window collide. A valid kind has two extensions that differ, but a signature
takes the place of the last part of an extension only: whether its path is free depends on that
part.
-/

namespace SealedStream.Naming

open Moment (mask)

variable {k : StreamKind} {dir p q : Path} {t u : Timestamp} {r r' : Role}

lemma slash_not_mem_last (hext : '/' ∉ k.extension.toList)
    (hsig : '/' ∉ k.signatureExtension.toList) (r : Role) :
    '/' ∉ firstParts k.extension ++ '.' :: r.last k := by
  have hparts : '/' ∉ '.' :: k.extension.toList := by simpa using hext
  have hsuffix : '/' ∉ partSuffix.toList := by decide
  rw [parts_eq] at hparts
  cases r <;> simp_all [Role.last]

lemma getLast_role (hk : k.validate = .ok ()) (hext : '/' ∉ k.extension.toList)
    (hsig : '/' ∉ k.signatureExtension.toList) (h : recordPath dir t k = .ok p) (r : Role) :
    (r.path k p).components.getLast? =
      some (t.moment.text.map mask ++ (firstParts k.extension ++ '.' :: r.last k)) := by
  obtain ⟨-, hne, -⟩ := StreamKind.extensions_of_valid hk
  refine Path.getLast_components (fronts_front dir) ?_ (by simp) (text_append_ne_dot _ _) ?_
  · rw [List.mem_append, not_or]
    exact ⟨slash_not_mem_text _, slash_not_mem_last hext hsig r⟩
  · rw [role_chars hext hne h, List.append_assoc (t.moment.text.map mask)]

/-- **Two paths agree** if and only if they are of one time and end alike. -/
theorem agrees_iff (hk : k.validate = .ok ()) (hext : '/' ∉ k.extension.toList)
    (hsig : '/' ∉ k.signatureExtension.toList) (hp : recordPath dir t k = .ok p)
    (hq : recordPath dir u k = .ok q) :
    (r.path k p).agrees (r'.path k q) = true ↔ t = u ∧ r.last k = r'.last k := by
  constructor
  · intro h
    simp only [Path.agrees, decide_eq_true_eq] at h
    have hname := congrArg List.getLast? h.2
    rw [getLast_role hk hext hsig hp, getLast_role hk hext hsig hq, Option.some.injEq] at hname
    obtain ⟨hmoment, hrest⟩ := Moment.mask_text_inj (recordPath_chars hp).1.nanos_lt
      (recordPath_chars hq).1.nanos_lt hname
    exact ⟨Timestamp.moment_inj hmoment, (List.cons.inj (List.append_cancel_left hrest)).2⟩
  · rintro ⟨rfl, hlast⟩
    obtain ⟨-, hne, -⟩ := StreamKind.extensions_of_valid hk
    have hsame : r.path k p = r'.path k q :=
      Path.ext_chars (by rw [role_chars hext hne hp, role_chars hext hne hq, hlast])
    simp [Path.agrees, hsame]

/-- **Where the names of windows collide.** The path of a record file and the path it is written at,
and the path of the signature file for the same or another time and the path that is written at, are
all apart, unless the times are the same and the extension of signatures is the last part of the
extension of records, or that part with the suffix of unfinished files. -/
theorem paths_apart_iff (hk : k.validate = .ok ()) (hext : '/' ∉ k.extension.toList)
    (hsig : '/' ∉ k.signatureExtension.toList) (hp : recordPath dir t k = .ok p)
    (hq : recordPath dir u k = .ok q) :
    [p, partPath p, signaturePath q k.signatureExtension,
      partPath (signaturePath q k.signatureExtension)].Pairwise (fun a b => a.agrees b = false) ↔
      t ≠ u ∨ (k.signatureExtension.toList ≠ lastPart k.extension ∧
        k.signatureExtension.toList ≠ lastPart k.extension ++ partSuffix.toList) := by
  have hapart : ∀ {r r' : Role} {v w : Timestamp} {a b : Path}, recordPath dir v k = .ok a →
      recordPath dir w k = .ok b →
        ((r.path k a).agrees (r'.path k b) = false ↔ ¬(v = w ∧ r.last k = r'.last k)) :=
    fun ha hb => by rw [← agrees_iff hk hext hsig ha hb, Bool.not_eq_true]
  have hsuffix : partSuffix.toList ≠ [] := by decide
  -- the last part has no dot, so it is nothing with the suffix
  have hplain : ∀ s : List Char, lastPart k.extension ≠ s ++ partSuffix.toList := by
    have hdot : '.' ∈ partSuffix.toList := by decide
    intro s heq
    exact dot_not_mem_lastPart k.extension (heq ▸ List.mem_append_right _ hdot)
  change [Role.record.path k p, Role.part.path k p, Role.signature.path k q,
    Role.signaturePart.path k q].Pairwise _ ↔ _
  simp only [List.pairwise_cons, List.forall_mem_cons, hapart hp hp, hapart hp hq, hapart hq hq,
    Role.last, List.append_left_inj, List.self_eq_append_right, hsuffix, hplain]
  grind

/-- Records whose extension ends in the extension of their signatures. -/
def dotted : StreamKind :=
  { StreamKind.records with extension := "rcd.sig", signatureExtension := "sig" }

/-- Such a kind is valid, and its signature files take the place of its record files. -/
theorem paths_apart_iff_dotted : dotted.validate = .ok () ∧
    recordPath ⟨"out"⟩ ⟨0, 0⟩ dotted = .ok ⟨"out/1970-01-01T00_00_00Z.rcd.sig"⟩ ∧
    ¬[⟨"out/1970-01-01T00_00_00Z.rcd.sig"⟩, partPath ⟨"out/1970-01-01T00_00_00Z.rcd.sig"⟩,
      signaturePath ⟨"out/1970-01-01T00_00_00Z.rcd.sig"⟩ "sig",
      partPath (signaturePath ⟨"out/1970-01-01T00_00_00Z.rcd.sig"⟩ "sig")].Pairwise
        (fun a b => a.agrees b = false) := by
  have hp : recordPath ⟨"out"⟩ ⟨0, 0⟩ dotted = .ok ⟨"out/1970-01-01T00_00_00Z.rcd.sig"⟩ := by
    decide +kernel
  refine ⟨rfl, hp, fun h => ?_⟩
  have := (paths_apart_iff rfl (by decide) (by decide) hp hp).mp h
  revert this
  decide

end SealedStream.Naming
