import Mathlib.Data.List.DropRight
import Mathlib.Tactic.Common
import SealedStream.Naming
import SealedStream.Proofs.Storage.Paths
import SealedStream.Proofs.Time.Moment

/-!
No two names collide: the paths at which a window's files come to stand tell which window it is,
and which of its files.
-/

namespace SealedStream

/-- An extension that holds neither a dot nor a slash. -/
def PlainExtension (e : String) : Prop := '.' ∉ e.toList ∧ '/' ∉ e.toList

instance (e : String) : Decidable (PlainExtension e) := inferInstanceAs (Decidable (_ ∧ _))

/-- A valid configuration whose extensions are plain. -/
structure Config.Plain (c : Config) : Prop where
  valid : c.validate = .ok ()
  extension : PlainExtension c.kind.extension
  signatureExtension : PlainExtension c.kind.signatureExtension

lemma StreamKind.extensions_of_valid {k : StreamKind} (hk : k.validate = .ok ()) :
    k.extension ≠ "" ∧ k.signatureExtension ≠ "" ∧ k.extension ≠ k.signatureExtension := by
  unfold StreamKind.validate StreamKind.flaw? at hk
  split at hk
  · cases hk
  · rename_i hflaw
    split at hflaw
    · cases hflaw
    · split at hflaw
      · cases hflaw
      · split at hflaw
        · cases hflaw
        · rename_i hne
          rw [not_or] at hne
          split at hflaw
          · cases hflaw
          · exact ⟨hne.1, hne.2, ‹_›⟩

namespace Config.Plain

variable {c : Config}

lemma kind (h : c.Plain) : c.kind.validate = .ok () := by
  have hv := h.valid
  unfold Config.validate at hv
  split at hv
  · cases hv
  · exact hv

lemma extensions (h : c.Plain) : c.kind.extension ≠ "" ∧ c.kind.signatureExtension ≠ "" ∧
    c.kind.extension ≠ c.kind.signatureExtension :=
  StreamKind.extensions_of_valid h.kind

end Config.Plain

namespace Naming

open Moment (mask)

/-! ### The four paths of a window -/

/-- What a path of a window is for. -/
inductive Role where
  | record
  | part
  | signature
  | signaturePart
  deriving DecidableEq, Repr

def Role.path (k : StreamKind) : Role → Path → Path
  | .record, p => p
  | .part, p => partPath p
  | .signature, p => signaturePath p k.signatureExtension
  | .signaturePart, p => partPath (signaturePath p k.signatureExtension)

def Role.tail (k : StreamKind) : Role → List Char
  | .record => '.' :: k.extension.toList
  | .part => '.' :: k.extension.toList ++ partSuffix.toList
  | .signature => '.' :: k.signatureExtension.toList
  | .signaturePart => '.' :: k.signatureExtension.toList ++ partSuffix.toList

lemma Role.tail_inj {c : Config} (hc : c.Plain) {r r' : Role} (h : r.tail c.kind = r'.tail c.kind) :
    r = r' := by
  obtain ⟨-, -, hne⟩ := hc.extensions
  have he := hc.extension.1
  have hs := hc.signatureExtension.1
  have hdot : '.' ∈ partSuffix.toList := by decide
  -- one extension with the suffix is never the other without it
  have hmix : ∀ {a b : String}, '.' ∉ b.toList → a.toList ++ partSuffix.toList ≠ b.toList := by
    rintro a b hb heq
    exact hb (heq ▸ List.mem_append_right _ hdot)
  cases r <;> cases r' <;> simp only [tail, List.cons_append, List.cons.injEq, true_and] at h <;>
    first
    | rfl
    | exact (hmix ‹_› h).elim
    | exact (hmix ‹_› h.symm).elim
    | exact (hne (String.toList_inj.mp h)).elim
    | exact (hne (String.toList_inj.mp h.symm)).elim
    | exact (hne (String.toList_inj.mp (List.append_cancel_right h))).elim
    | exact (hne (String.toList_inj.mp (List.append_cancel_right h).symm)).elim

lemma slash_not_mem_tail {c : Config} (hc : c.Plain) (r : Role) : '/' ∉ r.tail c.kind := by
  have hsuffix : '/' ∉ partSuffix.toList := by decide
  cases r <;> simp [Role.tail, hc.extension.2, hc.signatureExtension.2, hsuffix]

/-! ### Their texts -/

lemma mem_text {m : Moment} {d : Char} (h : d ∈ m.text.map mask) :
    d.isDigit = true ∨ d ∈ ['-', '+', 'T', '_', '.', 'Z'] := by
  have hpadded : ∀ {w n}, d ∈ Decimal.padded w n → d.isDigit = true := Decimal.isDigit_padded
  have hyear : d ∈ Moment.yearText m.date.year → d.isDigit = true ∨ d = '-' ∨ d = '+' := by
    rcases Moment.yearText_cases m.date.year with ⟨-, e⟩ | ⟨-, e⟩ | ⟨-, e⟩ <;> rw [e] <;> grind
  have hfraction : d ∈ Moment.fractionText m.nanos → d.isDigit = true ∨ d = '.' := by
    unfold Moment.fractionText
    grind
  rw [← List.append_nil (m.text.map mask), Moment.mask_text_append] at h
  grind

lemma slash_not_mem_text (m : Moment) : '/' ∉ m.text.map mask := by
  intro h
  have := mem_text h
  simp at this

lemma text_eq_append (m : Moment) : ∃ cs, m.text.map mask = cs ++ ['Z'] := by
  refine ⟨(m.clockText ++ Moment.fractionText m.nanos).map mask, ?_⟩
  rw [Moment.text, List.map_append]
  rfl

lemma text_append_ne_dot (m : Moment) (r : List Char) : m.text.map mask ++ r ≠ ['.'] := by
  obtain ⟨cs, hcs⟩ := text_eq_append m
  rw [hcs]
  intro hdot
  have hlen := congrArg List.length hdot
  simp only [List.length_append, List.length_cons, List.length_nil] at hlen
  obtain rfl : cs = [] := List.length_eq_zero_iff.mp (by omega)
  simp at hdot

/-- What the names in a directory stand behind. -/
def front (dir : Path) : List Char :=
  if dir.chars = [] then []
  else if dir.chars.getLast? = some '/' then dir.chars
  else dir.chars ++ ['/']

lemma fronts_front (dir : Path) : Path.Fronts (front dir) := by
  unfold front
  split
  · exact Or.inl rfl
  · split
    · rename_i h
      obtain ⟨before, hb⟩ := List.getLast?_eq_some_iff.mp h
      exact Or.inr ⟨before, hb⟩
    · exact Or.inr ⟨_, rfl⟩

lemma chars_join {dir q : Path} (hq : q.isAbsolute = false) :
    (dir.join q).chars = front dir ++ q.chars := by
  unfold Path.join front
  by_cases h0 : dir.chars = []
  · simp [h0]
  · rw [if_neg (by simp [hq, h0]), if_neg h0]
    split <;> simp [Path.chars]

lemma fileName_eq_ok {t : Timestamp} {e name : String} (h : fileName t e = .ok name) :
    t.Placeable ∧ name.toList = t.moment.text.map mask ++ '.' :: e.toList := by
  unfold fileName Timestamp.toMoment at h
  simp only at h
  split at h
  · rename_i hok
    simp only [Except.map, Except.ok.injEq] at h
    refine ⟨hok.1, ?_⟩
    rw [← h, String.toList_append, String.toList_append, String.toList_ofList, List.append_assoc]
    rfl
  · cases h

lemma toMoment_of_recordPath {dir p : Path} {t : Timestamp} {k : StreamKind}
    (h : recordPath dir t k = .ok p) : t.toMoment = .ok t.moment := by
  unfold recordPath fileName at h
  unfold Timestamp.toMoment at h ⊢
  simp only at h ⊢
  split at h
  · rename_i hok
    rw [if_pos hok]
  · cases h

/-- **The path of a record file** spells its time. -/
lemma recordPath_chars {dir p : Path} {t : Timestamp} {k : StreamKind}
    (h : recordPath dir t k = .ok p) :
    t.Placeable ∧ p.chars = front dir ++ (t.moment.text.map mask ++ '.' :: k.extension.toList) := by
  unfold recordPath at h
  cases hname : fileName t k.extension with
  | error e =>
    rw [hname] at h
    cases h
  | ok name =>
    rw [hname] at h
    simp only [Except.map, Except.ok.injEq] at h
    obtain ⟨hplace, hchars⟩ := fileName_eq_ok hname
    refine ⟨hplace, ?_⟩
    rw [← h, chars_join, ← hchars]
    · rfl
    · -- the text does not begin with a slash, as it has none
      obtain ⟨cs, hcs⟩ := text_eq_append t.moment
      have hslash := slash_not_mem_text t.moment
      simp only [Path.isAbsolute, Path.chars, hchars, decide_eq_false_iff_not]
      intro hhead
      cases htext : t.moment.text.map mask with
      | nil => simp [htext] at hcs
      | cons d ds =>
        rw [htext, List.cons_append, List.head?_cons, Option.some.injEq] at hhead
        exact hslash (by rw [htext, hhead]; exact List.mem_cons_self)

/-! ### Extensions with dots -/

/-- What stands behind the last dot of an extension. -/
def lastPart (ext : String) : List Char := ext.toList.rtakeWhile (· ≠ '.')

/-- What stands in front of that dot, from the dot in front of the extension on. -/
def firstParts (ext : String) : List Char := (('.' :: ext.toList).rdropWhile (· ≠ '.')).dropLast

lemma dot_not_mem_lastPart (ext : String) : '.' ∉ lastPart ext := by
  intro h
  have := List.mem_rtakeWhile_imp h
  simp at this

lemma parts_eq (ext : String) : '.' :: ext.toList = firstParts ext ++ '.' :: lastPart ext := by
  have hne : ('.' :: ext.toList).rdropWhile (· ≠ '.') ≠ [] := by simp
  have hdot : (('.' :: ext.toList).rdropWhile (· ≠ '.')).getLast hne = '.' := by
    simpa using List.rdropWhile_last_not (fun d => decide (d ≠ '.')) _ hne
  have hfirst := List.dropLast_append_getLast hne
  have hlast : ('.' :: ext.toList).rtakeWhile (· ≠ '.') = lastPart ext := by
    rw [lastPart, List.rtakeWhile, List.rtakeWhile, List.reverse_cons, List.takeWhile_append]
    split
    · rename_i hall
      rw [(List.takeWhile_prefix _).eq_of_length hall]
      simp
    · rfl
  calc '.' :: ext.toList
      = ('.' :: ext.toList).rdropWhile (· ≠ '.') ++ lastPart ext := by
        rw [← hlast, List.rdropWhile_append_rtakeWhile]
    _ = firstParts ext ++ ['.'] ++ lastPart ext := by
        rw [firstParts, ← hfirst, hdot, List.dropLast_concat]
    _ = firstParts ext ++ '.' :: lastPart ext := by simp

lemma parts_of_not_mem {ext : String} (h : '.' ∉ ext.toList) :
    firstParts ext = [] ∧ lastPart ext = ext.toList := by
  have hlast : lastPart ext = ext.toList :=
    List.rtakeWhile_eq_self_iff.mpr fun d hd => by
      simpa using fun hdot : d = '.' => h (hdot ▸ hd)
  have hparts := parts_eq ext
  rw [hlast] at hparts
  exact ⟨List.append_cancel_right (hparts.symm.trans (List.nil_append _).symm), hlast⟩

/-- What stands behind the last dot in the path for a role: a signature has its extension in the
place of the last part of the other. -/
def Role.last (k : StreamKind) : Role → List Char
  | .record => lastPart k.extension
  | .part => lastPart k.extension ++ partSuffix.toList
  | .signature => k.signatureExtension.toList
  | .signaturePart => k.signatureExtension.toList ++ partSuffix.toList

variable {c : Config} {k : StreamKind} {dir p q : Path} {t t' : Timestamp} {r r' : Role}

/-- **The paths for all roles** spell the time of the window and the first parts of the
extension. -/
theorem role_chars (hslash : '/' ∉ k.extension.toList) (hsig : k.signatureExtension ≠ "")
    (h : recordPath dir t k = .ok p) (r : Role) :
    (r.path k p).chars = front dir ++
      (t.moment.text.map mask ++ firstParts k.extension ++ '.' :: r.last k) := by
  obtain ⟨-, hp⟩ := recordPath_chars h
  obtain ⟨cs, hcs⟩ := text_eq_append t.moment
  have hparts := parts_eq k.extension
  have hslashes : '/' ∉ firstParts k.extension ∧ '/' ∉ lastPart k.extension := by
    have hmem : '/' ∉ '.' :: k.extension.toList := by simpa using hslash
    rw [hparts] at hmem
    simpa using hmem
  rw [hparts, ← List.append_assoc (t.moment.text.map mask)] at hp
  have hsignature : (signaturePath p k.signatureExtension).chars = front dir ++
      (t.moment.text.map mask ++ firstParts k.extension ++
        '.' :: k.signatureExtension.toList) := by
    refine Path.withExtension_chars (fronts_front _) ?_ (by simp [hcs]) (text_append_ne_dot _ _)
      (dot_not_mem_lastPart _) hslashes.2 hp hsig
    rw [List.mem_append, not_or]
    exact ⟨slash_not_mem_text _, hslashes.1⟩
  have hpart : ∀ q : Path, (partPath q).chars = q.chars ++ partSuffix.toList := by
    intro q
    simp [partPath, Path.append, Path.chars]
  cases r with
  | record => exact hp
  | part => rw [Role.path, hpart, hp]; simp [Role.last]
  | signature => exact hsignature
  | signaturePart => rw [Role.path, hpart, hsignature]; simp [Role.last]

/-- Where the extension has no dot, a signature has its own in the place of all of it. -/
lemma path_chars (hc : c.Plain) (h : recordPath c.exportDir t c.kind = .ok p) (r : Role) :
    (r.path c.kind p).chars =
      front c.exportDir ++ (t.moment.text.map mask ++ r.tail c.kind) := by
  obtain ⟨hfirst, hlast⟩ := parts_of_not_mem hc.extension.1
  rw [role_chars hc.extension.2 hc.extensions.2.1 h, hfirst, List.append_nil]
  cases r <;> simp [Role.last, Role.tail, hlast]

/-- **A path belongs to one window and has one role there.** -/
theorem path_inj (hc : c.Plain) (h : recordPath c.exportDir t c.kind = .ok p)
    (h' : recordPath c.exportDir t' c.kind = .ok q) (heq : r.path c.kind p = r'.path c.kind q) :
    r = r' ∧ t = t' := by
  have hchars := congrArg Path.chars heq
  rw [path_chars hc h, path_chars hc h'] at hchars
  obtain ⟨hmoment, htail⟩ := Moment.mask_text_inj (recordPath_chars h).1.nanos_lt
    (recordPath_chars h').1.nanos_lt (List.append_cancel_left hchars)
  exact ⟨Role.tail_inj hc htail, Timestamp.moment_inj hmoment⟩

end Naming

end SealedStream
