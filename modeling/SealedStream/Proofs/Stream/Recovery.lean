import SealedStream.Proofs.Storage.CrashView
import SealedStream.Proofs.Stream.Delivery

/-!
Crash and replay converge: when a run has crashed, the same stream fed to a new writer over what is
left brings about just the files of a run that has not.

What the crash has left are whole files of the first stretches. The second run passes over these
and publishes the others.
-/

namespace SealedStream

open Naming (Role)

variable {σ ω τ υ ρ χ : Type} [Storage σ ω] [Storage τ υ] [Storage ρ χ] {initial : Hash}
  {config : Config} {os : List StreamObject}

/-! ### Two runs in one -/

section

variable {G : Setting σ ω} {K : Setting τ υ} {M : Setting ρ χ} {xs ys zs : List Publication}
  {past past' past'' : List Stretch} {last last' last'' : Option WrittenFile} {d : Course}
  {w : Writer ω} {w' : Writer υ} {w'' : Writer χ} {s : Surroundings σ} {r : Surroundings τ}
  {q : Surroundings ρ} {path : Path}

/-- **The stretches of a run, and of a later run over what it has left,** are those of a third run
over what the first has found, if of these only the first may meet with failures. -/
lemma Account.converge (h : Account G xs d w s) (h' : Account K ys d w' r)
    (h'' : Account M zs d w'' q) (hO : G.orderly) (hK : K.reliable ∧ K.lasting)
    (hM : M.reliable ∧ M.lasting) (hcurrent : d.current = none)
    (hdistinct : (d.past.map Stretch.time).Nodup) (hKG : K.config = G.config)
    (hMG : M.config = G.config)
    (hfound : ∀ path, G.config.Names path → K.files path = G.view.file s.storage path)
    (hstart : ∀ path, G.config.Names path → G.files path = M.files path) :
    zs.map Publication.stretch =
      xs.map Publication.stretch ++ ys.map Publication.stretch := by
  have hfits : ∀ st ∈ xs.map Publication.stretch, decide st.Fits = true := fun st hst =>
    decide_eq_true (h.records.published.fits st hst)
  have hfresh : d.past.filter M.fresh = d.past.filter G.fresh :=
    List.filter_congr fun st _ => Setting.fresh_eq hMG hstart st
  obtain ⟨left, hsplit⟩ := h.first hO
  have hleft := h.records.filter_left hsplit.symm (List.map_map ..) hdistinct hKG hfound
  rw [h''.upto hM.1 hM.2 hcurrent, hfresh, h'.upto hK.1 hK.2 hcurrent, hleft, ← hsplit,
    List.takeWhile_append_of_pos hfits]

lemma Published.paths_append {p p' p'' : Pipeline} (h : Published G p xs) (h' : Published K p' ys)
    (h'' : Published M p'' zs) (hK : K.config = G.config) (hM : M.config = G.config)
    (hzs : zs.map Publication.stretch =
      xs.map Publication.stretch ++ ys.map Publication.stretch) :
    zs.map Publication.path = xs.map Publication.path ++ ys.map Publication.path := by
  rw [h.paths, h'.paths, h''.paths, hK, hM, hzs, List.filterMap_append]

/-- **The files of a run, and of a later run over what it has left,** are those of a third run, if
this publishes their stretches. -/
lemma Records.converge (h : Records G xs past last s) (h' : Records K ys past' last' r)
    (h'' : Records M zs past'' last'' q) (hK : K.config = G.config) (hM : M.config = G.config)
    (hzs : zs.map Publication.stretch =
      xs.map Publication.stretch ++ ys.map Publication.stretch)
    (hx : ∀ x ∈ xs, ∀ z ∈ zs, z.stretch = x.stretch → z.path = x.path ∧ z.content = x.content)
    (hy : ∀ y ∈ ys, ∀ z ∈ zs, z.stretch = y.stretch → z.path = y.path ∧ z.content = y.content)
    (hfound : K.files path = G.view.file s.storage path) (hstart : M.files path = G.files path)
    (hbeside : ¬G.config.Beside path) :
    K.view.file r.storage path = M.view.file q.storage path := by
  have hpaths := h.published.paths_append h'.published h''.published hK hM hzs
  have hthird {st : Stretch} (hst : st ∈ xs.map Publication.stretch ∨
      st ∈ ys.map Publication.stretch) : ∃ z ∈ zs, z.stretch = st := by
    rw [← List.mem_append, ← hzs] at hst
    exact List.mem_map.mp hst
  by_cases hmem : path ∈ ys.map Publication.path
  · obtain ⟨y, hyin, rfl⟩ := List.mem_map.mp hmem
    obtain ⟨z, hz, hst⟩ := hthird (.inr (List.mem_map_of_mem hyin))
    obtain ⟨hpath, hcontent⟩ := hy y hyin z hz hst
    rw [h'.content hyin, ← hpath, h''.content hz, hcontent]
  · rw [h'.untouched_beside (hK ▸ hbeside) hmem, hfound]
    by_cases hmem' : path ∈ xs.map Publication.path
    · obtain ⟨x, hxin, rfl⟩ := List.mem_map.mp hmem'
      obtain ⟨z, hz, hst⟩ := hthird (.inl (List.mem_map_of_mem hxin))
      obtain ⟨hpath, hcontent⟩ := hx x hxin z hz hst
      rw [h.content hxin, ← hpath, h''.content hz, hcontent]
    · have hnot : path ∉ zs.map Publication.path := by
        rw [hpaths, List.mem_append, not_or]
        exact ⟨hmem', hmem⟩
      rw [h.untouched_beside hbeside hmem', h''.untouched_beside (hM ▸ hbeside) hnot, hstart]

end

/-! ### What a crash leaves -/

/-- The path of a file of a window that is not finished. -/
def Config.Unfinished (c : Config) (path : Path) : Prop :=
  ∃ q, c.Names q ∧ (path = Role.part.path c.kind q ∨ path = Role.signaturePart.path c.kind q)

lemma Config.Unfinished.beside {c : Config} {path : Path} (h : c.Unfinished path) :
    c.Beside path := by
  obtain ⟨q, hq, hpath | hpath⟩ := h
  · exact ⟨q, .part, hq, by decide, hpath⟩
  · exact ⟨q, .signaturePart, hq, by decide, hpath⟩

namespace Outset

variable {b : Outset σ ω} {c : Outset τ υ}

/-- Neither storage nor signer fails, and nobody interferes. -/
structure Reliable (b : Outset σ ω) : Prop where
  storage : b.view.NeverFails
  signs (call : ℕ) (message : Bytes) :
    ∃ a, b.signer.sign call message = .ok a ∧ a.length ≤ Field.maxPayload
  calm : b.meanwhile = []

/-- The files are as they were left, but those that were not finished may hold anything, or have
gone. -/
def Finds (c : Outset τ υ) (config : Config) (left : Path → Option Bytes) : Prop :=
  ∀ path, (config.Unfinished path → left path = none) → c.view.file c.storage path = left path

def crashing (b : Outset σ ω) (n : ℕ) : Outset (Crashing σ) ω where
  view := Crashing.view b.view
  storage := ⟨b.storage, n⟩
  pipeline := b.pipeline
  signer := b.signer
  meanwhile := b.meanwhile
  coming := b.coming

lemma Serves.crashing (h : b.Serves config) (n : ℕ) : (b.crashing n).Serves config :=
  ⟨h.plain, h.sound, fun hn => (h.reaches hn).of_imp id⟩

lemma Finds.record {left : Path → Option Bytes} {path : Path} (h : c.Finds config left)
    (hc : config.Plain) (hn : config.Names path) : c.view.file c.storage path = left path :=
  h path fun hun => (hc.not_beside hn hun.beside).elim

lemma Finds.dependable {G : Setting σ ω} {pubs : List Publication} {past : List Stretch}
    {last : Option WrittenFile} {s : Surroundings σ} (h : Records G pubs past last s)
    (hclear : ∀ path, G.config.Names path →
      G.files (Role.signaturePart.path G.config.kind path) = none)
    (hfinds : c.Finds G.config (G.view.file s.storage)) (hc : c.Reliable) :
    c.Dependable G.config where
  storage := hc.storage
  signs := hc.signs
  clear {path} hn hfree := by
    rw [hfinds.record G.plain hn] at hfree
    have hnone := (h.beside hn hfree).trans (hclear path hn)
    rw [hfinds _ fun _ => hnone, hnone]

/-- **Crash and replay converge.** Objects whose times do not go back are handed to a writer, which
is then closed, and after any number of operations the storage crashes: no operation has an effect
any more. Then the same objects are handed to a new writer over the files that are left, where those
that were not finished may hold anything, and it is closed, while nothing fails. After that there
are just the record files of a run without a crash: it puts in place those that were put in place
before the crash, and then those of the second run, byte for byte; and no other file differs, but
signatures and unfinished files. -/
theorem crash_replay (hb : b.Serves config) (hs : b.Smooth config)
    (hsorted : os.Pairwise fun x y : StreamObject => x.timestamp ≤ y.timestamp)
    (hnamed : ∀ x ∈ os, ∃ text, x.timestamp.toIso = .ok text)
    (hresolved : ∀ x ∈ os, ∃ k, b.pipeline.Holds x.link k) (n : ℕ) :
    ∃ t, (b.crashing n).reached config ((Operation.batch initial os).map .call) = some t ∧
      b.view.Sound t.world.storage.inner ∧
      ∀ c : Outset τ υ, c.Serves config → c.Reliable →
        c.Finds config (b.view.file t.world.storage.inner) →
        (∀ x ∈ os, ∃ k, b.pipeline.Holds x.link k ∧ c.pipeline.Holds x.link k) →
        ∃ u v, c.reached config ((Operation.batch initial os).map .call) = some u ∧
          b.reached config ((Operation.batch initial os).map .call) = some v ∧
          v.world.placed = t.world.placed ++ u.world.placed ∧
          ∀ path, ¬config.Beside path →
            c.view.file u.world.storage path = b.view.file v.world.storage path := by
  obtain ⟨t, xs, ht, hcrashed⟩ := account_batch (hb.crashing n) False.elim hs.calm initial hsorted
    hnamed hresolved
  obtain ⟨v, zs, hv, hwhole⟩ := account_batch hb (fun _ : True => hs.dependable) hs.calm initial
    hsorted hnamed hresolved
  refine ⟨t, ht, hcrashed.records.sound, fun c hc hreliable hfinds hlinks => ?_⟩
  have hdependable : c.Dependable config :=
    Finds.dependable hcrashed.records (fun path hn => (hs.tidy hn).2) hfinds hreliable
  obtain ⟨u, ys, hu, hreplayed⟩ := account_batch hc (fun _ : True => hdependable) hreliable.calm
    initial hsorted hnamed fun x hx => (hlinks x hx).imp fun _ hk => hk.2
  -- what the crash has left to do is what the second run finds no files for
  have hzs := hcrashed.converge hreplayed hwhole trivial ⟨trivial, trivial⟩ ⟨trivial, trivial⟩
    (Course.current_batch ..) (hb.nodup_batch hsorted) rfl rfl
    (fun path hn => hfinds.record hb.plain hn) fun _ _ => rfl
  have hcrashedAlike := hb.alike_batch (G := (hb.crashing n).straight False False.elim)
    (K := hb.straight True fun _ => hs.dependable) rfl ⟨trivial, trivial⟩ initial fun x hx =>
      (hlinks x hx).imp fun _ hk => ⟨hk.1, hk.1⟩
  have hreplayedAlike := hb.alike_batch (G := hc.straight True fun _ => hdependable)
    (K := hb.straight True fun _ => hs.dependable) rfl ⟨trivial, trivial⟩ initial fun x hx =>
      (hlinks x hx).imp fun _ hk => ⟨hk.2, hk.1⟩
  refine ⟨u, v, hu, hv, ?_, fun path hbeside => ?_⟩
  · rw [hcrashed.records.placed, hreplayed.records.placed, hwhole.records.placed]
    exact hcrashed.records.published.paths_append hreplayed.records.published
      hwhole.records.published rfl rfl hzs
  · exact hcrashed.records.converge hreplayed.records hwhole.records rfl rfl hzs
      (fun x hx z hz hst => hcrashedAlike.agree hcrashed hwhole hx hz hst)
      (fun y hy z hz hst => hreplayedAlike.agree hreplayed hwhole hy hz hst)
      (hfinds path fun hun => (hbeside hun.beside).elim) rfl hbeside

/-- On a disk with an empty directory, which crashes after five operations. -/
theorem crash_replay_few : ∃ (t : Stage (Crashing Disk) DiskOutput) (u v : Stage Disk DiskOutput),
    (sample.crashing 5).reached .standard ((Operation.batch .zero few).map .call) = some t ∧
      { sample with storage := t.world.storage.inner }.reached .standard
        ((Operation.batch .zero few).map .call) = some u ∧
      sample.reached .standard ((Operation.batch .zero few).map .call) = some v ∧
      v.world.placed = t.world.placed ++ u.world.placed ∧
      ∀ path, ¬Config.standard.Beside path →
        u.world.storage.file path = v.world.storage.file path := by
  obtain ⟨t, ht, hsound, hreplay⟩ := crash_replay (τ := Disk) (υ := DiskOutput) serves_sample
    smooth_sample (show few.Pairwise _ by decide) (fun _ hx => named_few hx)
    (fun _ hx => holds_sample hx) 5
  obtain ⟨u, v, hu, hv, hplaced, hfiles⟩ := hreplay { sample with storage := t.world.storage.inner }
    ⟨serves_sample.plain, hsound, serves_sample.reaches⟩
    ⟨smooth_sample.storage, smooth_sample.signs, rfl⟩ (fun _ _ => rfl)
    fun x hx => (holds_sample hx).imp fun _ hk => ⟨hk, hk⟩
  exact ⟨t, u, v, ht, hu, hv, hplaced, hfiles⟩

end Outset

end SealedStream
