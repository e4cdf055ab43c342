import Mathlib.Data.List.Basic
import SealedStream.Proofs.Storage.FileView
import SealedStream.Proofs.Storage.Paths
import SealedStream.Storage.Disk

/-!
A disk as a map from paths to bytes: the files right below one directory.

None of its operations fails that has what it needs.
-/

namespace SealedStream

open Function (update)

namespace Disk

variable {d d' : Disk} {dir l m : Location} {n : Option Node} {i : ℕ} {bs data : Bytes} {p q : Path}
  {o : DiskOutput} {c : String}

/-! ### What an update does -/

lemma lookup_filter {α β : Type} [DecidableEq α] [BEq α] [LawfulBEq α] (k a : α)
    (xs : List (α × β)) : (xs.filter (·.1 ≠ k)).lookup a = if a = k then none else xs.lookup a := by
  induction xs with
  | nil => simp
  | cons x xs ih =>
    rcases x with ⟨b, y⟩
    rw [List.filter_cons, List.lookup_cons]
    by_cases hb : b = k
    · subst hb
      simp only [ne_eq, not_true, decide_false, Bool.false_eq_true, if_false, ih]
      by_cases ha : a = b
      · rw [if_pos ha, if_pos ha]
      · rw [if_neg ha, if_neg ha, beq_false_of_ne ha]
    · simp only [ne_eq, hb, not_false_eq_true, decide_true, if_true, List.lookup_cons, ih]
      by_cases ha : a = b
      · simp only [ha, beq_self_eq_true, hb, if_false]
      · rw [beq_false_of_ne ha]

lemma node_dropNode (d : Disk) (hl : l ≠ []) : (d.dropNode l).node? = update d.node? l none := by
  funext m
  have h := lookup_filter l m d.nodes
  simp only [node?, dropNode, Function.update_apply, h]
  grind

lemma node_setNode (d : Disk) (hl : l ≠ []) (n : Node) :
    (d.setNode l n).node? = update d.node? l (some n) := by
  funext m
  have h := lookup_filter l m d.nodes
  simp only [node?, setNode, Function.update_apply, List.lookup_cons, h]
  grind

lemma fileBytes_setBytes (d : Disk) (i : ℕ) (bs : Bytes) :
    (d.setBytes i bs).fileBytes = update d.fileBytes i bs := by
  funext j
  have h := lookup_filter i j d.contents
  simp only [fileBytes, setBytes, Function.update_apply, List.lookup_cons, h]
  grind

/-! ### Sound disks -/

/-- A component that stands for a name, and is not too long to be looked up. -/
structure PlainName (c : String) : Prop where
  named : c ≠ "" ∧ c ≠ "." ∧ c ≠ ".."
  short : c.utf8ByteSize ≤ maxName

/-- The path leads to a name right below a directory. -/
structure Below (dir : Location) (p : Path) : Prop where
  form : p.hasNul = false ∧ p.chars ≠ [] ∧ p.isAbsolute = false ∧ p.text.utf8ByteSize ≤ maxPath
  name : ∃ c, PlainName c ∧ p.names = dir ++ [c]

/-- The directory is there with nothing but files right below it, and every file has an id of its
own. -/
structure Holds (dir : Location) (d : Disk) : Prop where
  way {l rest : Location} {c : String} : dir = l ++ c :: rest →
    PlainName c ∧ d.node? (l ++ [c]) = some .directory
  flat (c : String) : d.node? (dir ++ [c]) ≠ some .directory
  fresh {l : Location} {i : ℕ} : d.node? l = some (.file i) → i < d.fresh
  alone {l m : Location} {i : ℕ} : d.node? l = some (.file i) → d.node? m = some (.file i) → l = m

lemma walk_names (rest : List String) (hc : PlainName c)
    (h : ∀ {m tail : Location} {b : String}, rest = m ++ b :: tail →
      PlainName b ∧ d.node? (l ++ (m ++ [b])) = some .directory) :
    d.walk l (rest ++ [c]) = .ok (.name (l ++ rest) c false) := by
  induction rest generalizing l with
  | nil =>
    obtain ⟨⟨h0, h1, h2⟩, -⟩ := hc
    simp [walk, h0, h1, h2]
  | cons b rest ih =>
    obtain ⟨⟨⟨h0, h1, h2⟩, hshort⟩, hdir⟩ := h (m := []) rfl
    have hmore : rest ++ [c] ≠ [] := by simp
    have hslash : ¬(rest ++ [c]).all (· = "") := by simp [hc.named.1]
    have hlook : d.lookup l b = .ok (some .directory) := by
      rw [lookup, if_neg (Nat.not_lt.mpr hshort)]
      exact congrArg _ hdir
    rw [List.cons_append, walk, if_neg (by simp [h0, h1]), if_neg h2, if_neg hmore, if_neg hslash,
      hlook]
    simp only
    rw [ih fun {m tail b'} heq => ?_, List.append_assoc]
    · rfl
    · have := h (m := b :: m) (congrArg (b :: ·) heq)
      rwa [List.append_assoc, List.singleton_append]

/-- **The way to a name** right below the directory. -/
lemma Holds.resolve (h : Holds dir d) (hp : Below dir p) :
    ∃ c, p.names = dir ++ [c] ∧ d.resolve p = .ok (.name dir c false) ∧
      d.lookup dir c = .ok (d.node? p.names) := by
  obtain ⟨⟨hnul, h0, habs, hsize⟩, c, hc, hnames⟩ := hp
  refine ⟨c, hnames, ?_, ?_⟩
  · rw [Disk.resolve, if_neg (by simp [hnul]), if_neg (by simp [h0, habs]),
      if_neg (Nat.not_lt.mpr hsize)]
    show d.walk [] p.names = _
    rw [hnames]
    exact walk_names (l := []) dir hc fun heq => h.way heq
  · rw [lookup, if_neg (Nat.not_lt.mpr hc.short), hnames]

lemma Holds.put (h : Holds dir d) (hp : Below dir p) (hnode : d'.node? = update d.node? p.names n)
    (hfresh : d.fresh ≤ d'.fresh) (hn : ∀ k ∈ n, ∃ i, k = .file i ∧ i < d'.fresh ∧
      ∀ m, d.node? m = some (.file i) → m = p.names) : Holds dir d' := by
  constructor
  · intro l rest b heq
    obtain ⟨hb, hdir⟩ := h.way heq
    refine ⟨hb, ?_⟩
    have hne : l ++ [b] ≠ p.names := by
      obtain ⟨-, c, -, hnames⟩ := hp
      intro hlen
      have := congrArg List.length hlen
      rw [hnames, heq] at this
      simp only [List.length_append, List.length_cons, List.length_nil] at this
      omega
    rw [hnode, Function.update_of_ne hne, hdir]
  · intro b hb
    rw [hnode, Function.update_apply] at hb
    split at hb
    · obtain ⟨i, hi, -⟩ := hn _ hb
      cases hi
    · exact h.flat b hb
  · intro l i hl
    rw [hnode, Function.update_apply] at hl
    split at hl
    · obtain ⟨j, hj, hlt, -⟩ := hn _ hl
      cases hj
      exact hlt
    · exact Nat.lt_of_lt_of_le (h.fresh hl) hfresh
  · intro l m i hl hm
    rw [hnode, Function.update_apply] at hl hm
    split at hl <;> split at hm
    · simp only [*]
    · obtain ⟨j, hj, -, hall⟩ := hn _ hl
      cases hj
      exact ‹l = p.names›.trans (hall m hm).symm
    · obtain ⟨j, hj, -, hall⟩ := hn _ hm
      cases hj
      exact (hall l hl).trans ‹m = p.names›.symm
    · exact h.alone hl hm

/-! ### Files -/

def content (d : Disk) : Option Node → Option Bytes
  | some (.file i) => some (d.fileBytes i)
  | _ => none

def file (d : Disk) (p : Path) : Option Bytes := d.content (d.node? p.names)

lemma file_update (hnode : d'.node? = update d.node? p.names n)
    (hbytes : ∀ q i, q ≠ p → d.node? q.names = some (.file i) → d'.fileBytes i = d.fileBytes i) :
    d'.file = update d.file p (d'.content n) := by
  funext q
  by_cases hq : q = p
  · rw [hq, Function.update_self, file, hnode, Function.update_self]
  · have hne : q.names ≠ p.names := fun h => hq (Path.names_inj h)
    rw [Function.update_of_ne hq, file, file, hnode, Function.update_of_ne hne]
    cases hn : d.node? q.names with
    | none => rfl
    | some k =>
      cases k with
      | directory => rfl
      | file i => exact congrArg some (hbytes q i hq hn)

namespace Holds

lemma node_cases (h : Holds dir d) (hp : Below dir p) :
    d.node? p.names = none ∨ ∃ i, d.node? p.names = some (.file i) := by
  obtain ⟨-, c, -, hnames⟩ := hp
  cases hn : d.node? p.names with
  | none => exact .inl rfl
  | some k =>
    cases k with
    | directory => exact (h.flat c (hnames ▸ hn)).elim
    | file i => exact .inr ⟨i, rfl⟩

lemma present_eq (h : Holds dir d) (hp : Below dir p) : d.present p = (d.file p).isSome := by
  obtain ⟨c, hnames, hres, hlook⟩ := h.resolve hp
  rcases h.node_cases hp with hn | ⟨i, hn⟩ <;>
    simp [present, find, hres, hlook, hn, file, content, Except.isOk, Except.toBool]

lemma create_eq (h : Holds dir d) (hp : Below dir p) :
    d.create p = if d.node? p.names = none then (.ok ⟨d.fresh, 0, []⟩, (d.addFile p.names).2)
      else d.refuse .alreadyExists := by
  obtain ⟨c, hnames, hres, hlook⟩ := h.resolve hp
  rcases h.node_cases hp with hn | ⟨i, hn⟩ <;>
    simp [create, hres, hlook, hn, ← hnames, addFile]

lemma remove_eq (h : Holds dir d) (hp : Below dir p) :
    d.remove p = if d.node? p.names = none then d.refuse .notFound
      else (.ok (), d.dropNode p.names) := by
  obtain ⟨c, hnames, hres, hlook⟩ := h.resolve hp
  rcases h.node_cases hp with hn | ⟨i, hn⟩ <;> simp [remove, hres, hlook, hn, ← hnames]

lemma openRead_eq (h : Holds dir d) (hp : Below dir p) :
    d.openRead p = match d.file p with
      | none => d.refuse .notFound
      | some bs => (.ok [.piece bs], d) := by
  obtain ⟨c, hnames, hres, hlook⟩ := h.resolve hp
  rcases h.node_cases hp with hn | ⟨i, hn⟩ <;>
    simp [openRead, find, hres, hlook, hn, file, content]

lemma rename_eq (h : Holds dir d) (hp : Below dir p) (hq : Below dir q) (hne : p ≠ q) :
    d.rename p q = match d.node? p.names with
      | some (.file i) => (.ok (), (d.dropNode p.names).setNode q.names (.file i))
      | _ => d.refuse .notFound := by
  obtain ⟨c, hnames, hres, hlook⟩ := h.resolve hp
  obtain ⟨e, hnames', hres', hlook'⟩ := h.resolve hq
  have hnul : ¬(p.hasNul ∨ q.hasNul) := by simp [hp.form.1, hq.form.1]
  have hplaces : p.names ≠ q.names := fun heq => hne (Path.names_inj heq)
  have hprefix : ¬(p.names ≠ q.names ∧ q.names.isPrefixOf p.names) := by
    rintro ⟨-, hpre⟩
    have hlen : q.names.length = p.names.length := by rw [hnames, hnames']; simp
    exact hplaces ((List.isPrefixOf_iff_prefix.mp hpre).eq_of_length hlen).symm
  rw [rename, if_neg hnul, hres, hres']
  simp only [hlook, hlook', ← hnames, ← hnames']
  rcases h.node_cases hp with hn | ⟨i, hn⟩
  · rw [hn]
  · rw [hn]
    simp only [Bool.false_eq_true, or_self, if_false, if_neg hprefix]
    rcases h.node_cases hq with hn' | ⟨j, hn'⟩
    · rw [hn']
      rfl
    · have hij : j ≠ i := by
        rintro rfl
        exact hplaces (h.alone hn hn')
      rw [hn', moveFile, if_neg hij]

end Holds

/-! ### Outputs -/

/-- An output goes on at the end of the file at a path; with what it has gathered, it has taken
`bs`. -/
structure Writes (d : Disk) (o : DiskOutput) (p : Path) (bs : Bytes) : Prop where
  node : d.node? p.names = some (.file o.id)
  position : o.position = (d.fileBytes o.id).length
  taken : d.fileBytes o.id ++ o.pending = bs

/-- An output has gone on, and at most the bytes of its file have changed. -/
structure Passes (dir : Location) (d : Disk) (o : DiskOutput) (d' : Disk) (p : Path) (bs : Bytes) :
    Prop where
  sound : Holds dir d'
  writes : Writes d' o p bs
  file : ∃ c, d'.file = update d.file p (some c)

lemma Passes.refl (h : Holds dir d) (hw : Writes d o p bs) : Passes dir d o d p bs := by
  refine ⟨h, hw, d.fileBytes o.id, ?_⟩
  have hfile : d.file p = some (d.fileBytes o.id) := by rw [Disk.file, hw.node, content]
  rw [← hfile, Function.update_eq_self]

lemma Passes.trans {d₁ : Disk} {o₁ : DiskOutput} {cs : Bytes} (h : Passes dir d o₁ d₁ p cs)
    (h' : Passes dir d₁ o d' p bs) : Passes dir d o d' p bs := by
  obtain ⟨c, hc⟩ := h.file
  obtain ⟨e, he⟩ := h'.file
  exact ⟨h'.sound, h'.writes, e, by rw [he, hc, Function.update_idem]⟩

lemma passes_put (h : Holds dir d) (hw : Writes d o p bs) (hpending : o.pending = [])
    (data : Bytes) :
    Passes dir d (put data o d).1 (put data o d).2 p (bs ++ data) ∧
      (put data o d).1.pending = [] := by
  unfold put
  split
  · rename_i hdata
    rw [hdata, List.append_nil]
    exact ⟨.refl h hw, hpending⟩
  · obtain ⟨hnode, hpos, htaken⟩ := hw
    rw [hpending, List.append_nil] at htaken
    have hover : overlay (d.fileBytes o.id) o.position data = d.fileBytes o.id ++ data := by
      simp [overlay, hpos]
    have hbytes : (d.setBytes o.id (overlay (d.fileBytes o.id) o.position data)).fileBytes o.id =
        bs ++ data := by
      rw [fileBytes_setBytes, Function.update_self, hover, htaken]
    refine ⟨⟨⟨h.way, h.flat, h.fresh, h.alone⟩, ⟨hnode, ?_, ?_⟩, bs ++ data, ?_⟩, hpending⟩
    · show o.position + data.length = _
      rw [hbytes, List.length_append, hpos, htaken]
    · show _ ++ o.pending = _
      rw [hbytes, hpending, List.append_nil]
    · rw [file_update (d := d) (p := p) (n := some (.file o.id)), content, hbytes]
      · rw [← hnode, Function.update_eq_self]
        rfl
      · intro q i hq hi
        have hne : i ≠ o.id := by
          rintro rfl
          exact hq (Path.names_inj (h.alone hi hnode))
        rw [fileBytes_setBytes, Function.update_of_ne hne]

lemma passes_flush (h : Holds dir d) (hw : Writes d o p bs) :
    Passes dir d (flush o d).1 (flush o d).2 p bs ∧ (flush o d).1.pending = [] := by
  obtain ⟨hnode, hpos, rfl⟩ := hw
  exact passes_put (o := { o with pending := [] }) h ⟨hnode, hpos, List.append_nil _⟩ rfl o.pending

/-- **A write** takes all that it is offered. -/
lemma passes_write (h : Holds dir d) (hw : Writes d o p bs) (data : Bytes) :
    ∃ o' d', write data o d = (.ok data.length, o', d') ∧ Passes dir d o' d' p (bs ++ data) := by
  -- after the first step there is room, or nothing has been gathered
  obtain ⟨o₁, d₁, heq, hpass, hroom⟩ : ∃ o₁ d₁,
      (if bufferSize < o.pending.length + data.length then flush o d else (o, d)) = (o₁, d₁) ∧
        Passes dir d o₁ d₁ p bs ∧ (bufferSize ≤ data.length → o₁.pending = []) := by
    split
    · obtain ⟨hpass, hpending⟩ := passes_flush h hw
      exact ⟨_, _, rfl, hpass, fun _ => hpending⟩
    · refine ⟨o, d, rfl, .refl h hw, fun hle => List.length_eq_zero_iff.mp ?_⟩
      omega
  unfold write
  rw [heq]
  simp only
  split
  · rename_i hle
    exact ⟨_, _, rfl, hpass.trans (passes_put hpass.sound hpass.writes (hroom hle) data).1⟩
  · refine ⟨_, _, rfl, hpass.trans (.refl hpass.sound ?_)⟩
    obtain ⟨hnode, hpos, htaken⟩ := hpass.writes
    exact ⟨hnode, hpos, by rw [← htaken, List.append_assoc]⟩

/-! ### The view -/

lemma Holds.created (h : Holds dir d) (hp : Below dir p) :
    Holds dir (d.addFile p.names).2 ∧ (d.addFile p.names).2.file = update d.file p (some []) := by
  have hnode : (d.addFile p.names).2.node? = update d.node? p.names (some (.file d.fresh)) :=
    node_setNode d p.names_ne_nil _
  have hbytes : (d.addFile p.names).2.fileBytes = update d.fileBytes d.fresh [] :=
    fileBytes_setBytes _ _ _
  constructor
  · refine h.put hp hnode (Nat.le_succ _) fun k hk => ⟨d.fresh, ?_, Nat.lt_succ_self _, ?_⟩
    · cases hk
      rfl
    · intro m hm
      exact absurd (h.fresh hm) (Nat.lt_irrefl _)
  · rw [file_update hnode, content, hbytes, Function.update_self]
    intro q i _ hi
    rw [hbytes, Function.update_of_ne (Nat.ne_of_lt (h.fresh hi))]

lemma Holds.dropped (h : Holds dir d) (hp : Below dir p) :
    Holds dir (d.dropNode p.names) ∧ (d.dropNode p.names).file = update d.file p none := by
  have hnode := node_dropNode d p.names_ne_nil
  refine ⟨h.put hp hnode (Nat.le_refl _) (fun k hk => nomatch hk), ?_⟩
  rw [file_update hnode fun _ _ _ _ => rfl]
  rfl

lemma Holds.moved (h : Holds dir d) (hp : Below dir p) (hq : Below dir q)
    (hi : d.node? p.names = some (.file i)) :
    Holds dir ((d.dropNode p.names).setNode q.names (.file i)) ∧
      ((d.dropNode p.names).setNode q.names (.file i)).file =
        update (update d.file p none) q (some (d.fileBytes i)) := by
  obtain ⟨h₁, hfile⟩ := h.dropped hp
  have hdrop := node_dropNode d p.names_ne_nil
  have hnode := node_setNode (d.dropNode p.names) q.names_ne_nil (.file i)
  constructor
  · refine h₁.put hq hnode (Nat.le_refl _) fun k hk => ⟨i, ?_, h.fresh hi, fun m hm => ?_⟩
    · cases hk
      rfl
    · -- no other path had the file
      rw [hdrop, Function.update_apply] at hm
      split at hm
      · cases hm
      · exact absurd (h.alone hm hi) ‹_›
  · rw [file_update hnode fun _ _ _ _ => rfl, hfile]
    rfl

/-- **The files right below a directory**, as a view. -/
def view (dir : Location) : FileView Disk DiskOutput where
  Reach := Below dir
  Sound := Holds dir
  file := file
  Open := Writes
  present_eq := Holds.present_eq
  open_isSome _ hw := by rw [file, hw.node]; rfl
  create_ok {d d' o p} h hp hcreate := by
    change d.create p = _ at hcreate
    rw [h.create_eq hp] at hcreate
    split at hcreate
    · rename_i hn
      obtain ⟨hsound, hfile⟩ := h.created hp
      cases hcreate
      refine ⟨hsound, by rw [file, hn]; rfl, ?_, [], hfile⟩
      have hbytes : (d.addFile p.names).2.fileBytes d.fresh = [] := by
        rw [addFile]
        exact (congrFun (fileBytes_setBytes _ _ _) _).trans (Function.update_self ..)
      refine ⟨?_, by rw [hbytes]; rfl, by rw [hbytes]; rfl⟩
      exact (congrFun (node_setNode d p.names_ne_nil _) _).trans (Function.update_self ..)
    · cases hcreate
  create_error {d d' e p} h hp hcreate := by
    change d.create p = _ at hcreate
    rw [h.create_eq hp] at hcreate
    split at hcreate
    · cases hcreate
    · cases hcreate
      exact ⟨h, rfl⟩
  write_ok {d d' o o' p bs data n} h hw hwrite := by
    obtain ⟨o₁, d₁, heq, hpass⟩ := passes_write h hw data
    cases heq.symm.trans hwrite
    refine ⟨hpass.sound, Nat.le_refl _, ?_, hpass.file⟩
    rw [List.take_length]
    exact hpass.writes
  write_error {d d' o o' p bs data e} h hw hwrite := by
    obtain ⟨o₁, d₁, heq, -⟩ := passes_write h hw data
    cases heq.symm.trans hwrite
  close_ok {d d' o p bs} h hw hclose := by
    obtain ⟨⟨hsound, hwrites, c, hfile⟩, hpending⟩ := passes_flush h hw
    cases hclose
    refine ⟨hsound, ?_⟩
    have hc := congrFun hfile p
    have hbytes := hwrites.taken
    rw [hpending, List.append_nil] at hbytes
    rw [Function.update_self, file, hwrites.node, content, hbytes] at hc
    rw [hfile, ← hc]
  close_error _ _ hclose := nomatch hclose
  rename_ok {d d' p q} h hp hq hne hrename := by
    change d.rename p q = _ at hrename
    rw [h.rename_eq hp hq hne] at hrename
    split at hrename
    · rename_i i hi
      obtain ⟨hsound, hfile⟩ := h.moved hp hq hi
      cases hrename
      exact ⟨hsound, d.fileBytes i, by rw [file, hi, content], hfile⟩
    · cases hrename
  rename_error {d d' p q e} h hp hq hne hrename := by
    change d.rename p q = _ at hrename
    rw [h.rename_eq hp hq hne] at hrename
    split at hrename
    · cases hrename
    · cases hrename
      exact ⟨h, rfl⟩
  remove_ok {d d' p} h hp hremove := by
    change d.remove p = _ at hremove
    rw [h.remove_eq hp] at hremove
    split at hremove
    · cases hremove
    · cases hremove
      exact h.dropped hp
  remove_error {d d' p e} h hp hremove := by
    change d.remove p = _ at hremove
    rw [h.remove_eq hp] at hremove
    split at hremove
    · cases hremove
      exact ⟨h, rfl⟩
    · cases hremove
  read_ok {d d' p source} h hp hread := by
    change d.openRead p = _ at hread
    rw [h.openRead_eq hp] at hread
    split at hread
    · cases hread
    · rename_i bs hfile
      cases hread
      refine ⟨h, rfl, fun c hc => ?_⟩
      rw [hfile]
      cases bs <;> simp_all [Source.readToEnd, Except.map]
  read_error {d d' p e} h hp hread := by
    change d.openRead p = _ at hread
    rw [h.openRead_eq hp] at hread
    split at hread
    · cases hread
      exact ⟨h, rfl⟩
    · cases hread

lemma Holds.exists_node (h : Holds dir d) (hp : Below dir p) (hfile : (d.file p).isSome) :
    ∃ i, d.node? p.names = some (.file i) := by
  refine (h.node_cases hp).resolve_left fun hn => ?_
  rw [file, hn] at hfile
  cases hfile

/-- **A disk never fails** to do what can be done. -/
theorem neverFails (dir : Location) : (view dir).NeverFails where
  create {d p} h hp hnone := by
    refine ⟨⟨d.fresh, 0, []⟩, (d.addFile p.names).2, ?_⟩
    change d.create p = _
    rw [h.create_eq hp, if_pos]
    refine (h.node_cases hp).resolve_right fun ⟨i, hi⟩ => ?_
    change d.file p = none at hnone
    rw [file, hi] at hnone
    cases hnone
  write {d o p bs data} h hw hdata := by
    obtain ⟨o', d', heq, -⟩ := passes_write h hw data
    exact ⟨data.length, o', d', fun h0 => hdata (List.length_eq_zero_iff.mp h0), heq⟩
  close {d o p bs} _ _ := ⟨(flush o d).2, rfl⟩
  rename {d p q} h hp hq hne hfile := by
    obtain ⟨i, hi⟩ := h.exists_node hp hfile
    refine ⟨(d.dropNode p.names).setNode q.names (.file i), ?_⟩
    change d.rename p q = _
    rw [h.rename_eq hp hq hne, hi]
  remove {d p} h hp hfile := by
    obtain ⟨i, hi⟩ := h.exists_node hp hfile
    refine ⟨d.dropNode p.names, ?_⟩
    change d.remove p = _
    rw [h.remove_eq hp, if_neg (by simp [hi])]
  read {d p} h hp hfile := by
    obtain ⟨bs, hbs⟩ := Option.isSome_iff_exists.mp hfile
    change d.file p = some bs at hbs
    refine ⟨[.piece bs], d, ?_, bs, ?_⟩
    · change d.openRead p = _
      rw [h.openRead_eq hp, hbs]
    · cases bs with
      | nil => rfl
      | cons b bs => simp [Source.readToEnd, Except.map]

end Disk

end SealedStream
