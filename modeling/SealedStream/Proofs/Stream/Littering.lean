import SealedStream.Proofs.Stream.Unsealed

/-!
Runs over files that were left unfinished.

An unfinished record file is written anew. An unfinished signature file is in the way of the new
one: it is removed, but the record file beside it stays without signatures, and the windows behind
it are given up.
-/

namespace SealedStream

open Naming (Role)

variable {σ ω τ υ : Type} [Storage σ ω] [Storage τ υ] {G : Setting σ ω} {K : Setting τ υ}
  {p : Pipeline} {xs ys pubs before after : List Publication} {b x y : Publication}
  {past : List Stretch} {last : Option WrittenFile} {d : Course} {w : Writer ω} {v : Writer υ}
  {s : Surroundings σ} {r : Surroundings τ} {path q : Path} {image : Bytes}

/-! ### What is signed -/

/-- **Where nothing fails** a record file is signed, unless its signature file was left
unfinished. -/
lemma Account.signed_iff (h : Account G pubs d w s) (hS : G.sure) (hl : G.lasting) (hb : b ∈ pubs) :
    b.signature.isSome ↔ G.blocked b.path = false := by
  obtain ⟨call, hvalid⟩ := h.records.published.valid hb
  rw [Setting.blocked, Option.isSome_eq_false_iff, Option.isNone_iff_eq_none]
  refine ⟨hvalid.clear, fun hclear => ?_⟩
  rcases h.state (G.ordered hS) with hst | hh
  · exact hst.signed hb
  · rcases hh.due hS hl with ⟨hsigned, -, -⟩ | ⟨rfl, hsigned, hthere⟩
    · exact hsigned b hb
    · rcases List.mem_append.mp hb with hbefore | hlast
      · exact hsigned b hbefore
      · cases List.mem_singleton.mp hlast
        exact (hthere hclear).elim

lemma Account.signedBefore (h : Account G pubs d w s) (hS : G.sure) (hl : G.lasting) :
    Publication.SignedBefore pubs := by
  rcases h.state (G.ordered hS) with hst | hh
  · exact fun b hb => hst.signed (List.dropLast_subset _ hb)
  · rcases hh.due hS hl with ⟨hsigned, -, -⟩ | ⟨rfl, hsigned, -⟩
    · exact fun b hb => hsigned b (List.dropLast_subset _ hb)
    · rwa [Publication.SignedBefore, List.dropLast_concat]

lemma Account.cancelled_of_blocked (h : Account G pubs d w s) (hS : G.sure) (hl : G.lasting)
    (hb : b ∈ pubs) (hblocked : G.blocked b.path = true) :
    s.pipeline.isCancelled w.token = true := by
  rcases h.state (G.ordered hS) with hst | hh
  · have hclear := (h.signed_iff hS hl hb).mp (hst.signed hb)
    exact nomatch hblocked.symm.trans hclear
  · exact hh.cancelled

lemma Publication.SignedBefore.earlier (h : SignedBefore (before ++ b :: after)) :
    ∀ x ∈ before, x.signature.isSome := by
  intro x hx
  refine h x ?_
  rw [List.dropLast_append_of_ne_nil (List.cons_ne_nil _ _)]
  exact List.mem_append_left _ hx

lemma Records.signature_of_some (h : Records G pubs past last s) (hb : b ∈ pubs)
    (hsig : b.signature = some (q, image)) :
    G.view.file s.storage (Role.signature.path G.config.kind b.path) = some image := by
  obtain ⟨call, hvalid⟩ := h.published.valid hb
  rw [← (hvalid.signed.signature hsig).1]
  exact h.file_of_mem (List.mem_flatMap.mpr ⟨b, hb, by simp [Publication.files, hsig]⟩)

/-! ### What the signer is asked -/

lemma Published.asked_eq (h : Published G p pubs) (hbefore : ∀ b ∈ before, b ∈ pubs)
    (hsigned : ∀ b ∈ before, b.signature.isSome) : G.asked before = 2 * before.length := by
  have hlength : ∀ b ∈ before, b.messages.length = 2 := by
    intro b hb
    obtain ⟨call, hvalid⟩ := h.valid (hbefore b hb)
    obtain ⟨⟨q, image⟩, hsig⟩ := Option.isSome_iff_exists.mp (hsigned b hb)
    rw [(hvalid.signed.signature hsig).2.1]
    rfl
  rw [Setting.asked, List.length_flatMap, List.map_congr_left hlength]
  simp [Nat.mul_comm]

/-- **The same calls about the same file** come to the same signatures. -/
lemma Publication.Signed.signature_eq {V : FileView σ ω} {W : FileView τ υ} {kind : StreamKind}
    {signer : Signer} {call : ℕ} (hx : x.Signed V kind signer call)
    (hy : y.Signed W kind signer call) (hpath : y.path = x.path) (hfile : y.file = x.file)
    (hcontent : y.content = x.content) (hsigned : x.signature.isSome)
    (hsigned' : y.signature.isSome) : y.signature = x.signature := by
  obtain ⟨⟨q, image⟩, hsig⟩ := Option.isSome_iff_exists.mp hsigned
  obtain ⟨⟨q', image'⟩, hsig'⟩ := Option.isSome_iff_exists.mp hsigned'
  obtain ⟨rfl, -, e, m, he, hm, himage⟩ := hx.signature hsig
  obtain ⟨rfl, -, e', m', he', hm', himage'⟩ := hy.signature hsig'
  rw [hcontent] at he'
  cases he.symm.trans he'
  rw [hfile] at hm'
  cases hm.symm.trans hm'
  rw [hcontent, hfile] at himage'
  cases himage.symm.trans himage'
  rw [hsig, hsig', hpath]

/-! ### Two accounts -/

/-- **A run over unfinished files gets as far as one over none**, but not past a record file that
was blocked. -/
lemma Account.upto_blocked (h : Account G xs d w s) (h' : Account K ys d v r)
    (hG : G.reliable ∧ G.lasting) (hK : K.sure ∧ K.lasting) (hcurrent : d.current = none)
    (hconfig : K.config = G.config)
    (hfiles : ∀ path, G.config.Names path → G.files path = K.files path) :
    ys.map Publication.stretch <+: xs.map Publication.stretch ∧
      ys.map Publication.path = upToFirst K.blocked (xs.map Publication.path) := by
  have hstretches := h'.gets hK.1 hK.2 hcurrent
  rw [List.filter_congr fun st _ => Setting.fresh_eq hconfig hfiles st,
    ← h.upto hG.1 hG.2 hcurrent] at hstretches
  have hblocked : ∀ x ∈ xs, (K.obstructed ∘ Publication.stretch) x =
      (K.blocked ∘ Publication.path) x := by
    intro x hx
    obtain ⟨call, hvalid⟩ := h.records.published.valid hx
    rw [Function.comp_apply, Setting.obstructed, hconfig, hvalid.name, Function.comp_apply]
  refine ⟨hstretches ▸ prefix_upToFirst _ _, ?_⟩
  rw [upToFirst_map, upToFirst_congr hblocked] at hstretches
  rw [h'.records.published.paths, hconfig, hstretches, upToFirst_map]
  exact (Publication.paths_eq fun x hx =>
    h.records.published.recordPath? ((prefix_upToFirst _ _).subset hx)).symm

section

variable (hGK : G.Alike K d) (h : Account G xs d w s) (h' : Account K ys d v r)
  (hsigner : K.signer = G.signer) (hsigned : ∀ x ∈ xs, x.signature.isSome)

include hGK h h' hsigner hsigned

/-- **What the second run publishes the first does too**, and with the same signatures, if it has
any. -/
lemma Setting.Alike.pair (hsigned' : Publication.SignedBefore ys)
    (hfirst : ys.map Publication.stretch <+: xs.map Publication.stretch) (hy : y ∈ ys) :
    ∃ x ∈ xs, y.path = x.path ∧ y.content = x.content ∧
      (y.signature.isSome → y.signature = x.signature) := by
  obtain ⟨before', after', rfl⟩ := List.append_of_mem hy
  obtain ⟨rest, hrest⟩ := hfirst
  rw [List.map_append, List.map_cons, List.append_assoc] at hrest
  obtain ⟨before, others, rfl, hbefore, hothers⟩ := List.map_eq_append_iff.mp hrest.symm
  obtain ⟨x, after, rfl, hst, -⟩ := List.map_eq_cons_iff.mp hothers
  have hx : x ∈ before ++ x :: after := by simp
  obtain ⟨hpath, hcontent⟩ := hGK.agree h h' hx hy hst.symm
  refine ⟨x, hx, hpath, hcontent, fun hsome => ?_⟩
  -- both have been signed by the same calls, as all before them have been signed
  have hcalls : K.asked before' = G.asked before := by
    have hearlier : ∀ z ∈ before, z ∈ before ++ x :: after := fun z hz => by simp [hz]
    rw [h.records.published.asked_eq hearlier fun z hz => hsigned z (hearlier z hz),
      h'.records.published.asked_eq (fun z hz => by simp [hz]) hsigned'.earlier,
      ← List.length_map, ← hbefore, List.length_map]
  have hxsigned := h.records.published.valid_at.signed
  have hysigned := h'.records.published.valid_at.signed
  rw [hcalls, hsigner, congrArg Config.kind hGK.config] at hysigned
  exact hxsigned.signature_eq hysigned hpath (hGK.file_eq h h' hx hy hst.symm) hcontent
    (hsigned x hx) hsome

lemma Setting.Alike.same_files (hK : K.sure ∧ K.lasting)
    (hfirst : ys.map Publication.stretch <+: xs.map Publication.stretch)
    (hpath : path ∈ r.placed) :
    (∃ image, G.view.file s.storage path = some image ∧ K.view.file r.storage path = some image) ∧
      (K.blocked path = false → ∃ image,
        G.view.file s.storage (Role.signature.path G.config.kind path) = some image ∧
        K.view.file r.storage (Role.signature.path K.config.kind path) = some image) ∧
      (K.blocked path = true →
        K.view.file r.storage (Role.signature.path K.config.kind path) =
          K.files (Role.signature.path K.config.kind path)) := by
  rw [h'.records.placed] at hpath
  obtain ⟨y, hy, rfl⟩ := List.mem_map.mp hpath
  obtain ⟨x, hx, hpath, hcontent, hsignature⟩ :=
    hGK.pair h h' hsigner hsigned (h'.signedBefore hK.1 hK.2) hfirst hy
  have hiff := h'.signed_iff hK.1 hK.2 hy
  refine ⟨⟨y.content, ?_, h'.records.content hy⟩, fun hclear => ?_, fun hblocked => ?_⟩
  · rw [hpath, hcontent]
    exact h.records.content hx
  · have hsome := hiff.mpr hclear
    obtain ⟨⟨q, image⟩, hsig⟩ := Option.isSome_iff_exists.mp hsome
    have hsig' := (hsignature hsome).symm.trans hsig
    refine ⟨image, ?_, h'.records.signature_of_some hy hsig⟩
    rw [hpath]
    exact h.records.signature_of_some hx hsig'
  · have hnone : y.signature = none := by
      rw [← Option.not_isSome_iff_eq_none, hiff, hblocked]
      nofun
    exact h'.records.unsigned hy hnone

end

lemma Records.as_before (h : Records G pubs past last s) (hn : G.config.Names path)
    (hnot : path ∉ s.placed) :
    G.view.file s.storage path = G.files path ∧
      G.view.file s.storage (Role.signature.path G.config.kind path) =
        G.files (Role.signature.path G.config.kind path) := by
  rw [h.placed] at hnot
  refine ⟨h.untouched hn hnot, h.unsealed hn fun b hb hpath => ?_⟩
  exact (hnot (hpath ▸ List.mem_map_of_mem hb)).elim

/-! ### Two runs -/

namespace Outset

variable {initial : Hash} {config : Config} {os : List StreamObject} {a : Outset σ ω}
  {c : Outset τ υ}

lemma Reliable.sure (h : a.Reliable) : a.Sure := ⟨h.storage, h.signs⟩

def blocked (a : Outset σ ω) (config : Config) (path : Path) : Bool :=
  (a.view.file a.storage
    (Naming.partPath (Naming.signaturePath path config.kind.signatureExtension))).isSome

def Vacant (a : Outset σ ω) (config : Config) (s : σ) (path : Path) : Prop :=
  a.view.file s path = none ∧
    a.view.file s (Naming.signaturePath path config.kind.signatureExtension) = none

/-- There is the same record file on either side, and the same signature file, or there is none. -/
def AlikeAt (a : Outset σ ω) (c : Outset τ υ) (config : Config) (u : Stage σ ω) (t : Stage τ υ)
    (path : Path) : Prop :=
  c.view.file t.world.storage path = a.view.file u.world.storage path ∧
    c.view.file t.world.storage (Naming.signaturePath path config.kind.signatureExtension) =
      a.view.file u.world.storage (Naming.signaturePath path config.kind.signatureExtension)

/-- **A batch has an account** over unfinished files too. -/
lemma account_littered (h : a.Serves config) (hreliable : a.Reliable) (initial : Hash)
    (hsorted : os.Pairwise fun x y : StreamObject => x.timestamp ≤ y.timestamp)
    (hnamed : ∀ x ∈ os, ∃ text, x.timestamp.toIso = .ok text)
    (hresolved : ∀ x ∈ os, ∃ k, a.pipeline.Holds x.link k) :
    ∃ t pubs, a.reached config ((Operation.batch initial os).map .call) = some t ∧
      Account (h.littered hreliable.sure) pubs (h.course (Operation.batch initial os))
        t.writer t.world :=
  account_ordered h (h.begins_littered hreliable.sure hreliable.calm)
    (provides_batch hnamed hresolved) (startsFrom_batch initial os) (by simp [Operation.batch])
    (by simp [Operation.batch])
    (Course.nodup_batch h.plain.clock config.completeWindow initial hsorted) False.elim

/-- A run over unfinished files against one over none: it puts in place what the other does, up to
the first record file beside which a signature file was left unfinished. This one has no signatures,
and the token has been cancelled for it. All else is the same, byte for byte. -/
structure HeldUp (a : Outset σ ω) (c : Outset τ υ) (config : Config) (u : Stage σ ω)
    (t : Stage τ υ) : Prop where
  placed : t.world.placed = upToFirst (c.blocked config) u.world.placed
  record {path : Path} : path ∈ t.world.placed → a.SameAt c u t path
  signed {path : Path} : path ∈ t.world.placed → c.blocked config path = false →
    a.SameAt c u t (Naming.signaturePath path config.kind.signatureExtension)
  unsigned {path : Path} : path ∈ t.world.placed → c.blocked config path = true →
    c.view.file t.world.storage (Naming.signaturePath path config.kind.signatureExtension) = none
  vacant {path : Path} : config.Names path → path ∉ t.world.placed →
    c.Vacant config t.world.storage path
  cancelled {path : Path} : path ∈ u.world.placed → c.blocked config path = true → ¬t.Unbroken

/-- **Both leave the same** just if nothing was blocked. -/
lemma HeldUp.alikeAt_iff {u : Stage σ ω} {t : Stage τ υ} (h : a.HeldUp c config u t)
    (hsigned : ∀ path ∈ u.world.placed, config.Names path ∧ (a.view.file u.world.storage
      (Naming.signaturePath path config.kind.signatureExtension)).isSome)
    (hvacant : ∀ path, config.Names path → path ∉ u.world.placed →
      a.Vacant config u.world.storage path) :
    (∀ path, config.Names path → a.AlikeAt c config u t path) ↔
      ∀ path ∈ u.world.placed, c.blocked config path = false := by
  refine ⟨fun hall path hpath => ?_, fun hclear path hn => ?_⟩
  · obtain ⟨hn, hsome⟩ := hsigned path hpath
    by_contra hblocked
    rw [Bool.not_eq_false] at hblocked
    have hnone : c.view.file t.world.storage
        (Naming.signaturePath path config.kind.signatureExtension) = none := by
      by_cases hin : path ∈ t.world.placed
      · exact h.unsigned hin hblocked
      · exact (h.vacant hn hin).2
    rw [← (hall path hn).2, hnone] at hsome
    cases hsome
  · have hplaced := h.placed
    rw [upToFirst_eq_self hclear] at hplaced
    by_cases hin : path ∈ t.world.placed
    · obtain ⟨image, hrecord, hrecord'⟩ := h.record hin
      obtain ⟨image', hsignatures, hsignatures'⟩ := h.signed hin (hclear path (hplaced ▸ hin))
      exact ⟨hrecord'.trans hrecord.symm, hsignatures'.trans hsignatures.symm⟩
    · obtain ⟨hrecord, hsignatures⟩ := hvacant path hn (hplaced ▸ hin)
      obtain ⟨hrecord', hsignatures'⟩ := h.vacant hn hin
      exact ⟨hrecord'.trans hrecord.symm, hsignatures'.trans hsignatures.symm⟩

/-- **Unfinished record files do not matter, but an unfinished signature file stops the writer.**
Objects whose times do not go back are handed to a writer over an empty directory, and to another
one over a directory in which there are only unfinished files, with whatever in them; each is then
closed, and nothing fails. The second run is held up at the first record file beside which a
signature file was left unfinished: this one stays without signatures, and no more is put in place.
So both leave the same record files and the same signature files just if no signature file was left
unfinished beside a record file that the first run puts in place. -/
theorem leftovers (ha : a.Serves config) (hs : a.Smooth config) (hc : c.Serves config)
    (hreliable : c.Reliable) (hsigner : c.signer = a.signer)
    (hempty : ∀ path, config.Names path →
      a.Vacant config a.storage path ∧ c.Vacant config c.storage path)
    (hsorted : os.Pairwise fun x y : StreamObject => x.timestamp ≤ y.timestamp)
    (hnamed : ∀ x ∈ os, ∃ text, x.timestamp.toIso = .ok text)
    (hlinks : ∀ x ∈ os, ∃ k, a.pipeline.Holds x.link k ∧ c.pipeline.Holds x.link k) :
    ∃ u t, a.reached config ((Operation.batch initial os).map .call) = some u ∧
      c.reached config ((Operation.batch initial os).map .call) = some t ∧
      a.HeldUp c config u t ∧
      ((∀ path, config.Names path → a.AlikeAt c config u t path) ↔
        ∀ path ∈ u.world.placed, c.blocked config path = false) := by
  obtain ⟨u, xs, hu, account⟩ := account_batch ha (fun _ : True => hs.dependable) hs.calm initial
    hsorted hnamed fun x hx => (hlinks x hx).imp fun _ hk => hk.1
  obtain ⟨t, ys, ht, account'⟩ := account_littered hc hreliable initial hsorted hnamed
    fun x hx => (hlinks x hx).imp fun _ hk => hk.2
  have halike := ha.alike_batch (G := ha.straight True fun _ => hs.dependable)
    (K := hc.littered hreliable.sure) rfl ⟨trivial, trivial⟩ initial hlinks
  obtain ⟨hfirst, hpaths⟩ := account.upto_blocked account' ⟨trivial, trivial⟩ ⟨trivial, trivial⟩
    (Course.current_batch ..) rfl fun path hn =>
      (hempty path hn).1.1.trans (hempty path hn).2.1.symm
  have hsigned : ∀ x ∈ xs, x.signature.isSome := by
    intro x hx
    obtain ⟨call, hvalid⟩ := account.records.published.valid hx
    refine (account.signed_iff trivial trivial hx).mpr ?_
    exact congrArg Option.isSome (hs.tidy hvalid.names).2
  have hsame {path : Path} (hpath : path ∈ t.world.placed) := halike.same_files account account'
    hsigner hsigned ⟨trivial, trivial⟩ hfirst hpath
  have hplaced : t.world.placed = upToFirst (c.blocked config) u.world.placed := by
    rw [account'.records.placed, account.records.placed]
    exact hpaths
  have hheld : a.HeldUp c config u t := by
    refine ⟨hplaced, fun hpath => (hsame hpath).1, fun hpath => (hsame hpath).2.1,
      fun hpath hblocked => ?_, fun hn hnot => ?_, fun hpath hblocked hunbroken => ?_⟩
    · have hn := (exists_placed hc ht hpath).1
      exact ((hsame hpath).2.2 hblocked).trans (hempty _ hn).2.2
    · obtain ⟨hrecord, hsignatures⟩ := account'.records.as_before hn hnot
      exact ⟨hrecord.trans (hempty _ hn).2.1, hsignatures.trans (hempty _ hn).2.2⟩
    · -- the first that was blocked has been put in place
      obtain ⟨q, hq, hblocked⟩ := exists_mem_upToFirst hpath hblocked
      rw [← hplaced, account'.records.placed] at hq
      obtain ⟨y, hy, rfl⟩ := List.mem_map.mp hq
      have hcancelled := account'.cancelled_of_blocked trivial trivial hy hblocked
      exact nomatch hunbroken.symm.trans hcancelled
  refine ⟨u, t, hu, ht, hheld, hheld.alikeAt_iff (fun path hpath => ?_) fun path hn hnot => ?_⟩
  · rw [account.records.placed] at hpath
    obtain ⟨x, hx, rfl⟩ := List.mem_map.mp hpath
    obtain ⟨call, hvalid⟩ := account.records.published.valid hx
    obtain ⟨⟨q, image⟩, hsig⟩ := Option.isSome_iff_exists.mp (hsigned x hx)
    exact ⟨hvalid.names, Option.isSome_iff_exists.mpr
      ⟨image, account.records.signature_of_some hx hsig⟩⟩
  · obtain ⟨hrecord, hsignatures⟩ := account.records.as_before hn hnot
    exact ⟨hrecord.trans (hempty path hn).1.1, hsignatures.trans (hempty path hn).1.2⟩

def firstPlace : Path := ⟨"record-streams/1970-01-01T00_00_01Z.rcd"⟩

lemma recordPath_firstPlace : Naming.recordPath Config.standard.exportDir few[0].timestamp
    Config.standard.kind = .ok firstPlace := by decide +kernel

lemma names_firstPlace : Config.standard.Names firstPlace := ⟨_, recordPath_firstPlace⟩

/-- The small stream on a disk on which its first signature file was left unfinished. -/
def strewn : Outset Disk DiskOutput :=
  { sample with storage := (sample.storage.addFile
      (Role.signaturePart.path Config.standard.kind firstPlace).names).2 }

lemma created_strewn : (Disk.view ["record-streams"]).Sound strewn.storage ∧
    strewn.storage.file = Function.update sample.storage.file
      (Role.signaturePart.path Config.standard.kind firstPlace) (some []) :=
  Disk.Holds.created serves_sample.sound (serves_sample.reaches names_firstPlace).signaturePart

lemma serves_strewn : strewn.Serves .standard :=
  ⟨serves_sample.plain, created_strewn.1, serves_sample.reaches⟩

lemma file_strewn {path : Path} {r : Role} (hn : Config.standard.Names path)
    (hr : r ≠ .signaturePart) :
    strewn.view.file strewn.storage (r.path Config.standard.kind path) = none := by
  show strewn.storage.file _ = none
  rw [created_strewn.2, Function.update_of_ne, sample]
  · exact Disk.file_blank ..
  · exact fun heq => hr (serves_sample.plain.path_inj hn names_firstPlace heq).1

theorem leftovers_strewn : ∃ u t : Stage Disk DiskOutput,
    sample.reached .standard ((Operation.batch .zero few).map .call) = some u ∧
      strewn.reached .standard ((Operation.batch .zero few).map .call) = some t ∧
      firstPlace ∈ u.world.placed ∧ ¬t.Unbroken ∧
      ¬∀ path, Config.standard.Names path → sample.AlikeAt strewn .standard u t path := by
  obtain ⟨u, t, hu, ht, hheld, hiff⟩ := leftovers serves_sample smooth_sample serves_strewn
    ⟨smooth_sample.storage, smooth_sample.signs, rfl⟩ rfl
    (fun path hn => ⟨⟨file_onDisk .., file_onDisk ..⟩,
      ⟨file_strewn hn (r := .record) nofun, file_strewn hn (r := .signature) nofun⟩⟩)
    (show few.Pairwise _ by decide) (fun _ hx => named_few hx)
    fun x hx => (holds_sample hx).imp fun _ hk => ⟨hk, hk⟩
  have hleft : strewn.storage.file (Role.signaturePart.path Config.standard.kind firstPlace) =
      some [] := by
    rw [created_strewn.2, Function.update_self]
  have hblocked : strewn.blocked .standard firstPlace = true := congrArg Option.isSome hleft
  obtain ⟨u', pubs, hu', account, -, hgroups⟩ := publish_groups serves_sample smooth_sample .zero
    (fun _ _ => file_onDisk ..) (show few.Pairwise _ by decide) (fun _ hx => named_few hx)
    (by decide) (fun _ hx => holds_sample hx) rfl
  cases hu.symm.trans hu'
  have hplaced : firstPlace ∈ u.world.placed := by
    rw [mem_placed_iff account.records hgroups, groups_few]
    exact ⟨_, List.mem_cons_self, _, rfl, recordPath_firstPlace⟩
  refine ⟨u, t, hu, ht, hplaced, hheld.cancelled hplaced hblocked, fun hall => ?_⟩
  exact nomatch hblocked.symm.trans (hiff.mp hall _ hplaced)

end Outset

end SealedStream
