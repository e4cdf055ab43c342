import Mathlib.Data.List.Basic
import SealedStream.Storage.Path

/-!
The names that a path is made of; paths that end in a name with an extension, and what another
extension makes of them.
-/

namespace SealedStream.Path

variable {front stem name ext : List Char} {p q : Path}

lemma ext_chars (h : p.chars = q.chars) : p = q := by
  cases p
  cases q
  simpa [chars, String.toList_inj] using h

@[simp] lemma chars_ofChars (cs : List Char) : (ofChars cs).chars = cs := by
  simp [chars, ofChars]

/-! ### Names on a path -/

lemma split_ne_nil (cs : List Char) : split cs ≠ [] := by
  cases cs with
  | nil => simp [split]
  | cons c cs =>
    rw [split]
    split
    · simp
    · split <;> simp

lemma split_append_slash (before rest : List Char) :
    split (before ++ '/' :: rest) = split before ++ split rest := by
  induction before with
  | nil => simp [split]
  | cons c cs ih =>
    rw [List.cons_append, split, split, ih]
    split
    · rfl
    · cases h : split cs with
      | nil => exact absurd h (split_ne_nil cs)
      | cons w ws => rfl

lemma split_of_not_mem (h : '/' ∉ name) : split name = [name] := by
  induction name with
  | nil => rfl
  | cons c cs ih =>
    rw [List.mem_cons, not_or] at h
    rw [split, if_neg (Ne.symm h.1), ih h.2]

def names (p : Path) : List String := (split p.chars).map String.ofList

lemma intercalate_split (cs : List Char) : ['/'].intercalate (split cs) = cs := by
  induction cs with
  | nil => rfl
  | cons c cs ih =>
    rw [split]
    cases h : split cs with
    | nil => exact absurd h (split_ne_nil cs)
    | cons w ws =>
      rw [h] at ih
      split
      · rename_i hc
        rw [hc, List.intercalate_cons_cons, ih]
        rfl
      · cases ws with
        | nil => simpa using ih
        | cons v vs => simpa [List.intercalate_cons_cons] using ih

lemma names_inj (h : p.names = q.names) : p = q := by
  have hsplit : split p.chars = split q.chars :=
    List.map_injective_iff.mpr (fun _ _ => String.ofList_injective) h
  exact ext_chars (by rw [← intercalate_split p.chars, hsplit, intercalate_split])

lemma names_ne_nil (p : Path) : p.names ≠ [] := by
  simpa [names] using split_ne_nil p.chars

/-! ### The last component -/

/-- What a name stands behind: nothing, or a slash. -/
def Fronts (front : List Char) : Prop := front = [] ∨ ∃ before, front = before ++ ['/']

lemma getLast_components (hf : Fronts front) (hs : '/' ∉ name) (h0 : name ≠ [])
    (h1 : name ≠ ['.']) (hp : p.chars = front ++ name) : p.components.getLast? = some name := by
  have hsplit : ∃ ws, split p.chars = ws ++ [name] := by
    rw [hp]
    rcases hf with rfl | ⟨before, rfl⟩
    · exact ⟨[], by rw [List.nil_append, split_of_not_mem hs, List.nil_append]⟩
    · exact ⟨split before, by
        rw [List.append_assoc, List.singleton_append, split_append_slash, split_of_not_mem hs]⟩
  obtain ⟨ws, hws⟩ := hsplit
  rw [components, hws, List.filter_append]
  simp [h0, h1]

lemma fileName_eq (hf : Fronts front) (hs : '/' ∉ name) (h0 : name ≠ []) (h1 : name ≠ ['.'])
    (h2 : name ≠ ['.', '.']) (hp : p.chars = front ++ name) : p.fileName? = some name := by
  rw [fileName?, getLast_components hf hs h0 h1 hp]
  simp [h2]

/-! ### Extensions -/

lemma lastDot_append (hext : '.' ∉ ext) (hstem : stem ≠ []) :
    lastDot? (stem ++ '.' :: ext) = some stem.length := by
  have htail : ((stem ++ '.' :: ext).reverse.takeWhile (· ≠ '.')).length = ext.length := by
    rw [List.reverse_append, List.reverse_cons, List.append_assoc, List.takeWhile_append_of_pos]
    · simp
    · intro c hc
      rw [List.mem_reverse] at hc
      simp only [ne_eq, decide_not, Bool.not_eq_true', decide_eq_false_iff_not]
      rintro rfl
      exact hext hc
  have hpos := List.length_pos_iff.mpr hstem
  unfold lastDot?
  rw [htail]
  simp only [List.length_append, List.length_cons]
  rw [if_pos (by omega)]
  congr 1
  omega

lemma extension_append (hext : '.' ∉ ext) (hstem : stem ≠ []) :
    extension? (stem ++ '.' :: ext) = some ext := by
  rw [extension?, lastDot_append hext hstem]
  simp

lemma stem_append (hext : '.' ∉ ext) (hstem : stem ≠ []) :
    Path.stem (stem ++ '.' :: ext) = stem := by
  rw [Path.stem, lastDot_append hext hstem]
  simp

lemma trimmed_eq (cs : List Char) {c d : Char} (hc : c ≠ '/') (hd : d ≠ '/')
    (hp : p.chars = cs ++ [c, d]) : p.trimmed = p.chars := by
  have htail : tailLength p.chars.reverse = 0 := by
    rw [hp, List.reverse_append]
    simp only [List.reverse_cons, List.reverse_nil, List.nil_append, List.cons_append]
    unfold tailLength
    split
    · rename_i h
      exact absurd (List.cons.inj h).1 hd
    · rename_i h
      exact absurd (List.cons.inj (List.cons.inj h).2).1 hc
    · rfl
  have hlen : p.chars ≠ ['.'] := by
    rw [hp]
    intro h
    have := congrArg List.length h
    simp at this
  unfold trimmed
  simp only [htail, Nat.sub_zero, List.take_length, if_neg hlen]

/-- **Another extension** takes the place of what stands behind the last dot. -/
theorem withExtension_chars (hf : Fronts front) (hs : '/' ∉ stem) (hstem : stem ≠ [])
    (hdot : stem ≠ ['.']) (hext : '.' ∉ ext) (hslash : '/' ∉ ext)
    (hp : p.chars = front ++ (stem ++ '.' :: ext)) {other : String} (hother : other ≠ "") :
    (p.withExtension other).chars = front ++ (stem ++ '.' :: other.toList) := by
  -- the name once its extension is gone, its dot still there
  obtain ⟨init, c, rfl⟩ : ∃ init c, stem = init ++ [c] :=
    ⟨_, _, (List.dropLast_concat_getLast hstem).symm⟩
  have hc : c ≠ '/' := by
    rintro rfl
    simp at hs
  have hlong : ∀ {cs : List Char}, init ++ [c] ++ '.' :: cs ≠ ['.'] := by
    intro cs h
    have hlen := congrArg List.length h
    simp only [List.length_append, List.length_cons, List.length_nil] at hlen
    omega
  have hdots : ∀ {cs : List Char}, init ++ [c] ++ '.' :: cs ≠ ['.', '.'] := by
    intro cs h
    have hlen := congrArg List.length h
    simp only [List.length_append, List.length_cons, List.length_nil] at hlen
    obtain rfl : cs = [] := List.length_eq_zero_iff.mp (by omega)
    have h : init ++ [c] ++ ['.'] = ['.'] ++ ['.'] := h
    exact hdot (List.append_cancel_right h)
  have hname : p.fileName? = some (init ++ [c] ++ '.' :: ext) :=
    fileName_eq hf (by simpa [hslash] using hs) (by simp) hlong hdots hp
  have hbare : (ofChars (p.chars.take (p.chars.length - ext.length))).chars =
      front ++ (init ++ [c] ++ '.' :: []) := by
    have hcut : p.chars = front ++ (init ++ [c] ++ '.' :: []) ++ ext := by simp [hp]
    rw [chars_ofChars, hcut]
    exact List.take_left' (by simp only [List.length_append]; omega)
  have hbareName : (ofChars (p.chars.take (p.chars.length - ext.length))).fileName? =
      some (init ++ [c] ++ '.' :: []) :=
    fileName_eq hf (by simpa using hs) (by simp) hlong hdots hbare
  have htrimmed := trimmed_eq (front ++ init) (d := '.') hc (by decide)
    (hbare.trans (by simp))
  unfold withExtension
  rw [hname, Option.bind_some, extension_append hext (by simp)]
  simp only
  unfold setExtension
  rw [hbareName]
  simp only [chars_ofChars]
  rw [if_neg (by simpa using hother), upToStem, htrimmed, hbare,
    stem_append (by simp) (by simp), ← List.append_assoc]
  have hcut : ((front ++ (init ++ [c])) ++ ['.']).take
      (((front ++ (init ++ [c])) ++ ['.']).length - 1) = front ++ (init ++ [c]) :=
    List.take_left' (by simp)
  have hdrop : (init ++ [c] ++ ['.']).length - (init ++ [c]).length = 1 := by simp
  rw [hdrop, hcut]
  simp

end SealedStream.Path
