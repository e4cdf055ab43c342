import SealedStream.Proofs.Stream.Delivery

/-!
Writers that join late, and wait for a complete window: from the first window on that begins for
both at one object, they write the files of those who have been there all the time.

Only periods are waited for. A block that spans the boundary is split where the joiner begins.
-/

namespace SealedStream

variable {σ ω τ υ : Type} [Storage σ ω] [Storage τ υ] {config config' : Config}
  {os : List StreamObject} {initial initial' : Hash}

/-! ### Names -/

/-- The name of the file of a stretch, whatever the directory. -/
def Config.fileName? (c : Config) (st : Stretch) : Option String :=
  (Naming.fileName st.time c.kind.extension).toOption

def Config.exported (c : Config) (name : String) : Path := c.exportDir.join ⟨name⟩

lemma Config.recordPath?_eq (c : Config) (st : Stretch) :
    c.recordPath? st = (c.fileName? st).map c.exported := by
  unfold recordPath? fileName? Naming.recordPath
  cases Naming.fileName st.time c.kind.extension <;> rfl

lemma Origin.past_eq_past {xs : List StreamObject} (h : xs ≠ []) (origin origin' : Origin) :
    origin.past xs = origin'.past xs := by
  obtain ⟨ys, o, rfl⟩ := (List.eq_nil_or_concat xs).resolve_left h
  rw [List.concat_eq_append, past_concat, past_concat]

lemma firstPeriod_ne_nil {millis : UInt64} (h : os ≠ []) : firstPeriod millis os ≠ [] := by
  cases os with
  | nil => exact (h rfl).elim
  | cons o os => exact List.cons_ne_nil _ _

/-! ### The same stretches -/

/-- **From a cut that both have**, the groups of a late joiner are those of the whole stream: it has
passed over an object, so that both start from the hash after the last one before the cut. -/
lemma Stretch.Groups.join {millis : UInt64} {origin origin' : Origin} {k : ℕ}
    {front mid rest : List StreamObject} {ss ss' : List Stretch} (hos : os = front ++ rest)
    (hlater : laterPeriods millis (os.drop k) = mid ++ rest)
    (h : Groups millis rest (origin.past front) ss)
    (h' : Groups millis rest ((origin'.past (firstPeriod millis (os.drop k))).past mid) ss') :
    ss = ss' := by
  rcases List.eq_nil_or_concat rest with rfl | ⟨rs, r, rfl⟩
  · have hnil := h.objects
    have hnil' := h'.objects
    rw [groups_nil, List.map_eq_nil_iff] at hnil hnil'
    rw [hnil, hnil']
  · have hdrop : os.drop k ≠ [] := by
      intro hnil
      rw [hnil] at hlater
      simp [laterPeriods] at hlater
    have hfront : front = os.take k ++ (firstPeriod millis (os.drop k) ++ mid) := by
      refine (List.append_left_inj (rs.concat r)).mp ?_
      rw [← hos, List.append_assoc, List.append_assoc, ← hlater, firstPeriod_append,
        List.take_append_drop]
    rw [← Origin.past_append] at h'
    rw [hfront, Origin.past_append, Origin.past_eq_past _ _ origin'] at h
    · exact h.unique h'
    · simp [firstPeriod_ne_nil hdrop]

/-! ### The same files -/

section

variable {G : Setting σ ω} {K : Setting τ υ} {p : Pipeline}
  {pubs xs xs' ys ys' : List Publication} {past past' : List Stretch}
  {last last' : Option WrittenFile} {s : Surroundings σ} {r : Surroundings τ} {name : String}

lemma Published.names (h : Published G p pubs) (hys : ∀ y ∈ ys, y ∈ pubs) :
    ys.map Publication.path =
      ((ys.map Publication.stretch).filterMap G.config.fileName?).map G.config.exported := by
  rw [Publication.paths_eq fun b hb => h.recordPath? (hys b hb), List.map_filterMap]
  exact List.filterMap_congr fun st _ => G.config.recordPath?_eq st

lemma Records.placed_drop (h : Records G (xs ++ ys) past last s) :
    s.placed.drop xs.length = ys.map Publication.path := by
  rw [h.placed, List.map_append, List.drop_left' (List.length_map _)]

lemma Published.path_of_fileName? (h : Published G p pubs) {b : Publication} (hb : b ∈ pubs)
    (hname : G.config.fileName? b.stretch = some name) : b.path = G.config.exported name := by
  have hpath := h.recordPath? hb
  rw [Config.recordPath?_eq, hname, Option.map_some] at hpath
  exact (Option.some.inj hpath).symm

/-- **Publications of the same stretches** with the same contents are the same files, one by one,
whatever the directories. -/
lemma Records.same_files (h : Records G (xs ++ ys) past last s)
    (h' : Records K (xs' ++ ys') past' last' r) (hkind : K.config.kind = G.config.kind)
    (hys : ys'.map Publication.stretch = ys.map Publication.stretch)
    (hcontent : ∀ y ∈ ys, ∀ y' ∈ ys', y'.stretch = y.stretch → y'.content = y.content) :
    ∃ names : List String,
      s.placed.drop xs.length = names.map G.config.exported ∧
      r.placed.drop xs'.length = names.map K.config.exported ∧ names.length = ys.length ∧
      ∀ name ∈ names, ∃ image,
        G.view.file s.storage (G.config.exported name) = some image ∧
        K.view.file r.storage (K.config.exported name) = some image := by
  have hsame : K.config.fileName? = G.config.fileName? := by
    unfold Config.fileName?
    rw [hkind]
  have hnames := h.published.names fun y => List.mem_append_right xs
  have hnames' := h'.published.names fun y => List.mem_append_right xs'
  rw [hys, hsame] at hnames'
  refine ⟨(ys.map Publication.stretch).filterMap G.config.fileName?, h.placed_drop.trans hnames,
    h'.placed_drop.trans hnames', ?_, fun name hname => ?_⟩
  · have hlength := congrArg List.length hnames
    rw [List.length_map, List.length_map] at hlength
    exact hlength.symm
  · obtain ⟨st, hst, hname⟩ := List.mem_filterMap.mp hname
    obtain ⟨y', hy', hst'⟩ := List.mem_map.mp (hys ▸ hst)
    obtain ⟨y, hy, rfl⟩ := List.mem_map.mp hst
    have hin := List.mem_append_right xs hy
    have hin' := List.mem_append_right xs' hy'
    have hpath := h.published.path_of_fileName? hin hname
    have hpath' := h'.published.path_of_fileName? hin' (by rw [hst', hsame, hname])
    refine ⟨y.content, ?_, ?_⟩
    · rw [← hpath]
      exact h.content hin
    · rw [← hpath', ← hcontent y hy y' hy' hst']
      exact h'.content hin'

end

namespace Outset

variable {a : Outset σ ω} {b : Outset τ υ}

/-- **A late joiner agrees with the others from a common window on.** Objects whose times do not go
back, all of which can be named and written, are handed to one writer, and those from number `k` on
to another, of the same period and stream type, that waits for a complete window, and both are
closed, while nothing fails. If then the objects `rest`, from some place behind the first boundary
on, begin a window for both, the files that the two put in place from there on are the same, one by
one, in name and in content. If they begin where the joiner does, these are all its files.

What running hash the joiner is given does not matter: it passes over one object at least. -/
theorem late_joiner (ha : a.Serves config) (hb : b.Serves config') (hsa : a.Smooth config)
    (hsb : b.Smooth config') (hkind : config'.kind = config.kind)
    (hperiod : config'.periodMillis = config.periodMillis)
    (hoff : config.completeWindow = false) (hon : config'.completeWindow = true)
    (hfree : ∀ path, config.Names path → a.view.file a.storage path = none)
    (hfree' : ∀ path, config'.Names path → b.view.file b.storage path = none)
    (hsorted : os.Pairwise fun x y : StreamObject => x.timestamp ≤ y.timestamp)
    (hnamed : ∀ x ∈ os, ∃ text, x.timestamp.toIso = .ok text) (hfits : ∀ x ∈ os, x.item.Fits)
    (hlinks : ∀ x ∈ os, ∃ k, a.pipeline.Holds x.link k ∧ b.pipeline.Holds x.link k) (k : ℕ) :
    ∃ t u, a.reached config ((Operation.batch initial os).map .call) = some t ∧
      b.reached config' ((Operation.batch initial' (os.drop k)).map .call) = some u ∧
      t.Unbroken ∧ u.Unbroken ∧
      ∀ front mid rest, os = front ++ rest →
        laterPeriods config.periodMillis (os.drop k) = mid ++ rest →
        Cuts config.periodMillis front rest → Cuts config.periodMillis mid rest →
        ∃ names : List String,
          t.world.placed.drop (groups config.periodMillis front).length =
            names.map config.exported ∧
          u.world.placed.drop (groups config.periodMillis mid).length =
            names.map config'.exported ∧
          names.length = (groups config.periodMillis rest).length ∧
          ∀ name ∈ names, ∃ image,
            a.view.file t.world.storage (config.exported name) = some image ∧
            b.view.file u.world.storage (config'.exported name) = some image := by
  have hdrop : ∀ {x}, x ∈ os.drop k → x ∈ os := fun hx => List.mem_of_mem_drop hx
  obtain ⟨t, xs, ht, account, hunbroken, hgroups⟩ := publish_groups ha hsa initial hfree hsorted
    hnamed hfits (fun x hx => (hlinks x hx).imp fun _ hk => hk.1) hoff
  obtain ⟨u, ys, hu, account', hunbroken', hgroups'⟩ := publish_later hb hsb initial' hfree'
    (hsorted.sublist (List.drop_sublist k os)) (fun x hx => hnamed x (hdrop hx))
    (fun x hx => hfits x (hdrop hx))
    (fun x hx => (hlinks x (hdrop hx)).imp fun _ hk => hk.2) hon
  rw [hperiod] at hgroups'
  have hknown : ∀ x ∈ (xs.map Publication.stretch).flatMap Stretch.objects,
      ∃ k, a.pipeline.Holds x.link k ∧ b.pipeline.Holds x.link k := by
    rw [hgroups.flatMap_objects]
    exact hlinks
  refine ⟨t, u, ht, hu, hunbroken, hunbroken', fun front mid rest hos hlater hcut hcut' => ?_⟩
  obtain ⟨ss, ss', hss, hfront, hrest⟩ := Stretch.Groups.split (hos ▸ hgroups) hcut
  obtain ⟨rs, rs', hrs, hmid, hrest'⟩ := Stretch.Groups.split (hlater ▸ hgroups') hcut'
  obtain rfl := hrest.join hos hlater hrest'
  obtain ⟨xs₁, xs₂, rfl, hxs₁, hxs₂⟩ := List.map_eq_append_iff.mp hss
  obtain ⟨ys₁, ys₂, rfl, hys₁, hys₂⟩ := List.map_eq_append_iff.mp hrs
  obtain ⟨names, hplaced, hplaced', hcount, hfiles⟩ := account.records.same_files account'.records
    hkind (hys₂.trans hxs₂.symm) fun x hx y hy hst => by
      obtain ⟨m, hxvalid⟩ := account.records.published.valid (List.mem_append_right xs₁ hx)
      obtain ⟨n, hyvalid⟩ := account'.records.published.valid (List.mem_append_right ys₁ hy)
      exact hxvalid.content_eq hyvalid hkind trivial trivial account.records.grown
        account'.records.grown hst hgroups.linked
        (List.mem_map_of_mem (List.mem_append_right xs₁ hx)) hknown
  rw [← hfront.objects, ← hmid.objects, ← hrest.objects, ← hxs₁, ← hys₁, ← hxs₂]
  simp only [List.length_map]
  exact ⟨names, hplaced, hplaced', hcount, hfiles⟩

/-! ### A block that spans a boundary -/

def waiting : Config := { Config.standard with completeWindow := true }

lemma serves_waiting (os : List StreamObject) : (chained os).Serves waiting :=
  ⟨⟨rfl, by decide, by decide⟩, (serves_chained os).sound, (serves_chained os).reaches⟩

lemma smooth_waiting (os : List StreamObject) : (chained os).Smooth waiting :=
  ⟨(smooth_chained os).storage, (smooth_chained os).signs, rfl, (smooth_chained os).tidy⟩

/-- Joining before the first boundary, where the second window of the others begins. -/
theorem late_joiner_spanning : ∃ (t u : Stage Disk DiskOutput) (names : List String),
    (chained spanning).reached .standard ((Operation.batch .zero spanning).map .call) = some t ∧
      (chained spanning).reached waiting
        ((Operation.batch .zero (spanning.drop 0)).map .call) = some u ∧
      u.world.placed = names.map waiting.exported ∧ names.length = 1 ∧
      ∀ name ∈ names, ∃ image,
        t.world.storage.file (Config.standard.exported name) = some image ∧
        u.world.storage.file (waiting.exported name) = some image := by
  obtain ⟨t, u, ht, hu, -, -, hjoin⟩ := late_joiner (serves_chained spanning)
    (serves_waiting spanning) (smooth_chained spanning) (smooth_waiting spanning) rfl rfl rfl rfl
    (fun path _ => free_chained _ path) (fun path _ => free_chained _ path) sorted_spanning
    named_spanning fits_spanning (fun x hx => (holds_spanning x hx).imp fun _ hk => ⟨hk, hk⟩) 0
  obtain ⟨names, -, hnames, hcount, hfiles⟩ := hjoin (spanning.take 2) [] (spanning.drop 2) rfl rfl
    cuts_spanning (cuts_nil_left _ _)
  rw [groups_nil] at hnames
  rw [groups_rest] at hcount
  exact ⟨t, u, names, ht, hu, hnames, hcount, hfiles⟩

/-- **Joining within a block**, nobody else has the file that a writer begins with at the boundary:
the block goes on in the file in which it has begun. -/
theorem late_joiner_differs : ∃ t u,
    (chained spanning).reached .standard ((Operation.batch .zero spanning).map .call) = some t ∧
      (chained spanning).reached waiting ((Operation.batch
        (RunningHash.after .zero ((spanning.take 2).map StreamObject.item))
        (spanning.drop 2)).map .call) = some u ∧
      t.Unbroken ∧ u.Unbroken ∧ ∃ path ∈ u.world.placed, path ∉ t.world.placed := by
  have hdrop : ∀ {x}, x ∈ spanning.drop 2 → x ∈ spanning := fun hx => List.mem_of_mem_drop hx
  obtain ⟨t, xs, ht, account, hunbroken, hgroups⟩ := publish_groups (serves_chained spanning)
    (smooth_chained spanning) .zero (fun path _ => free_chained _ path) sorted_spanning
    named_spanning fits_spanning holds_spanning rfl
  obtain ⟨u, ys, hu, account', hunbroken', hgroups'⟩ := publish_later (serves_waiting spanning)
    (smooth_waiting spanning) (RunningHash.after .zero ((spanning.take 2).map StreamObject.item))
    (fun path _ => free_chained _ path) (sorted_spanning.sublist (List.drop_sublist 2 spanning))
    (fun x hx => named_spanning x (hdrop hx)) (fun x hx => fits_spanning x (hdrop hx))
    (fun x hx => holds_spanning x (hdrop hx)) rfl
  have hlater : laterPeriods waiting.periodMillis (spanning.drop 2) = [spanning[3]] := by decide
  obtain ⟨text, htext⟩ := named_spanning spanning[3] (by decide)
  obtain ⟨path, hpath⟩ :=
    Naming.recordPath_of_toIso htext Config.standard.exportDir Config.standard.kind
  refine ⟨t, u, ht, hu, hunbroken, hunbroken', path, ?_, fun hmem => ?_⟩
  · refine (mem_placed_iff account'.records hgroups').mpr
      ⟨[spanning[3]], ?_, spanning[3], rfl, hpath⟩
    rw [hlater]
    simp [groups_cons]
  · obtain ⟨g, hg, o, ho, hname⟩ := (mem_placed_iff account.records hgroups).mp hmem
    have htime := (Naming.path_inj (r := .record) (serves_chained spanning).plain hname hpath rfl).2
    rw [groups_spanning] at hg
    have hne : ∀ g ∈ [spanning.take 2, spanning.drop 2], ∀ o ∈ g.head?,
        o.timestamp ≠ spanning[3].timestamp := by decide
    exact hne g hg o ho htime

end Outset

end SealedStream
