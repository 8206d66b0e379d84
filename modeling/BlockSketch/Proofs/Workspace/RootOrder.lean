import BlockSketch.Proofs.Workspace.Links
import BlockSketch.Proofs.Workspace.ScanOrder

namespace BlockSketch

/-- Entries by rank, and what is no entry after all of them. -/
def RankBefore : Option UInt8 → Option UInt8 → Prop
  | some r, some r' => r < r'
  | some _, none => True
  | none, _ => False

/-- The rank of a block's type, if the type is known and is that of entries. -/
def Catalogue.entryRank? (c : Catalogue) (b : Block) : Option UInt8 :=
  (c.shape? b.typeId).bind Shape.entryRank

namespace Workspace

theorem rootRank_lt_iff (c : Catalogue) (b b' : Block) :
    rootRank c b < rootRank c b' ↔ RankBefore (c.entryRank? b) (c.entryRank? b') := by
  simp only [rootRank, Catalogue.entryRank?]
  cases (c.shape? b.typeId).bind Shape.entryRank with
  | none =>
    cases (c.shape? b'.typeId).bind Shape.entryRank with
    | none => simp [RankBefore]
    | some r' =>
      have hr' : r'.toNat < 256 := r'.toNat_lt
      simp only [RankBefore, iff_false]
      omega
  | some r =>
    have hr := r.toNat_lt
    cases (c.shape? b'.typeId).bind Shape.entryRank with
    | none => simpa [RankBefore] using hr
    | some r' => exact UInt8.lt_iff_toNat_lt.symm

/-- A root comes before another one: by rank, then along the scan, then by insertion. -/
def RootBefore (broken : Position → NotNumber) (w : Workspace) (c : Catalogue) (id id' : String) : Prop :=
  ∃ b b', w.get? id = some b ∧ w.get? id' = some b' ∧
    (RankBefore (c.entryRank? b) (c.entryRank? b') ∨
      ¬ RankBefore (c.entryRank? b') (c.entryRank? b) ∧
        ((b.position.scanKeyBy broken).Before (b'.position.scanKeyBy broken) ∨
          ¬ (b'.position.scanKeyBy broken).Before (b.position.scanKeyBy broken) ∧
            [id, id'].Sublist w.blocks.keys))

/-- Equal sort keys leave the order to what comes next. -/
theorem rootBefore_of_keys {broken : Position → NotNumber} {w : Workspace} {c : Catalogue}
    {e e' : String × Block} (he : e ∈ w.blocks.entries) (he' : e' ∈ w.blocks.entries)
    (h : rootRank c e.2 < rootRank c e'.2 ∨ rootRank c e.2 = rootRank c e'.2 ∧
      ((e.2.position.scanKeyBy broken).totalRank < (e'.2.position.scanKeyBy broken).totalRank ∨
        (e.2.position.scanKeyBy broken).totalRank = (e'.2.position.scanKeyBy broken).totalRank ∧
          [e.1, e'.1].Sublist w.blocks.keys)) :
    w.RootBefore broken c e.1 e'.1 := by
  refine ⟨e.2, e'.2, Table.get?_eq_some_iff.mpr he, Table.get?_eq_some_iff.mpr he', ?_⟩
  rw [← rootRank_lt_iff, ← rootRank_lt_iff, ← Double.totalRank_lt_iff, ← Double.totalRank_lt_iff]
  rcases h with hrank | ⟨hrank, hscan | ⟨hscan, hkeys⟩⟩
  · exact .inl hrank
  · exact .inr ⟨by omega, .inl hscan⟩
  · exact .inr ⟨by omega, .inr ⟨by omega, hkeys⟩⟩

theorem pairwise_unlinked (w : Workspace) :
    w.unlinked.Pairwise fun e e' => [e.1, e'.1].Sublist w.blocks.keys := by
  have hkeys : w.blocks.keys.Pairwise fun k k' => [k, k'].Sublist w.blocks.keys :=
    List.pairwise_iff_forall_sublist.mpr fun h => h
  have hentries : w.blocks.entries.Pairwise fun e e' => [e.1, e'.1].Sublist w.blocks.keys :=
    List.pairwise_map.mp hkeys
  exact hentries.filter _

/-- The roots are the blocks that no block links to, once each: entries by rank, then along the
scan, then by insertion, whichever doubles arithmetic makes of sums that are no numbers. -/
theorem programRoots_in_order (w : Workspace) (c : Catalogue) :
    w.programRoots c = w.programRootsBy Position.brokenSum c ∧
    ∀ broken : Position → NotNumber,
      (w.programRootsBy broken c).Nodup ∧
      (∀ id, id ∈ w.programRootsBy broken c ↔ (∃ b, w.get? id = some b) ∧
        ∀ x b s, w.get? x = some b → b.linked? s ≠ some id) ∧
      (w.programRootsBy broken c).Pairwise (w.RootBefore broken c) := by
  refine ⟨rfl, fun broken => ⟨w.nodup_programRootsBy broken c, ?_, ?_⟩⟩
  · intro id
    have hkey : (∃ b, w.get? id = some b) ↔ id ∈ w.blocks.keys := by
      rw [← Option.ne_none_iff_exists', Ne, get?, Table.get?_eq_none_iff, not_not]
    have hlinked : (∀ x b s, w.get? x = some b → b.linked? s ≠ some id) ↔ id ∉ w.linkedIds := by
      rw [mem_linkedIds_iff]
      constructor
      · rintro h ⟨x, b, s, hb, hs⟩
        exact h x b s hb hs
      · exact fun h x b s hb hs => h ⟨x, b, s, hb, hs⟩
    rw [mem_programRootsBy_iff, hkey, hlinked]
  · have hscanned := pairwise_sortByKey_stable
      (fun e => (e.2.position.scanKeyBy broken).totalRank) w.pairwise_unlinked
    have hroots := pairwise_sortByKey_stable (fun e => rootRank c e.2) hscanned
    have hmem : ∀ e ∈ sortByKey (fun e => rootRank c e.2) (w.scannedBy broken),
        e ∈ w.blocks.entries := by
      intro e he
      have hunlinked := (sortBy_perm _ _).mem_iff.mp ((sortBy_perm _ _).mem_iff.mp he)
      exact (List.mem_filter.mp hunlinked).1
    refine List.pairwise_map.mpr (hroots.imp_of_mem fun he he' h => ?_)
    exact rootBefore_of_keys (hmem _ he) (hmem _ he') h

end Workspace

end BlockSketch
