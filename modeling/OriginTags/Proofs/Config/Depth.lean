import OriginTags.Proofs.Tagging.Pass
/-!
# Depth windows

The two depths of a configuration say how deep an element may stand to be tagged. They are in order
whatever the user asks for, so some depth is always allowed. The ceiling for the largest depth holds with
one exception: it is checked before the two depths are swapped, and the smallest depth that is asked for
may lie above it.
-/

namespace OriginTags.Config

/-! ## Clamping -/

theorem value_clampMin (depth : Int) : (clampMin depth).value = depth.toNat := by
  unfold clampMin
  split
  · next hneg => exact (Int.toNat_of_nonpos (Int.le_of_lt hneg)).symm
  · rfl

theorem value_clampMax (depth : Int) :
    (clampMax depth).value = if depth ≤ maxDepthCeiling then depth.toNat else 0 := by
  unfold clampMax
  by_cases hhigh : depth ≤ maxDepthCeiling
  · by_cases hneg : depth < 0
    · have hnone : ¬ (0 ≤ depth ∧ depth ≤ maxDepthCeiling) := fun h => Int.not_le.2 hneg h.1
      rw [if_neg hnone, if_pos hhigh, Int.toNat_of_nonpos (Int.le_of_lt hneg)]
      rfl
    · rw [if_pos ⟨Int.not_lt.1 hneg, hhigh⟩, if_pos hhigh]
      rfl
  · rw [if_neg fun h => hhigh h.2, if_neg hhigh]
    rfl

/-- The depths that are stored are those that are within bounds, or the same in the other order. -/
theorem clampDepths_cases (low high : Option Int) :
    ∃ least most, least = (low.getD 0).toNat ∧
      most = (if high.getD 0 ≤ maxDepthCeiling then (high.getD 0).toNat else 0) ∧
      (0 < most ∧ most < least ∧ (clampDepths low high).value = (most, least) ∨
        (most = 0 ∨ least ≤ most) ∧ (clampDepths low high).value = (least, most)) := by
  refine ⟨_, _, value_clampMin (low.getD 0), value_clampMax (high.getD 0), ?_⟩
  simp only [clampDepths, Traced.value_bind]
  split
  · next hswap => exact .inl ⟨hswap.2.1, hswap.2.2, rfl⟩
  · next hkeep => exact .inr ⟨by omega, rfl⟩

/-- Depths within bounds and in order are stored as they are, without a warning. -/
theorem clampDepths_of_ordered {low high : Nat} (hhigh : high ≤ maxDepthCeiling)
    (horder : low = 0 ∨ high = 0 ∨ low ≤ high) :
    clampDepths (some low) (some high) = pure (low, high) := by
  have hmin : clampMin low = pure low := if_neg (Int.not_lt.2 (Int.natCast_nonneg low))
  have hmax : clampMax high = pure high :=
    if_pos ⟨Int.natCast_nonneg high, Int.ofNat_le.2 hhigh⟩
  have hkeep : ¬ (0 < low ∧ 0 < high ∧ high < low) := by omega
  simp only [clampDepths, Option.getD_some, hmin, hmax]
  exact if_neg hkeep

/-- The smallest depth that is asked for lies above the ceiling, and the largest one within bounds. -/
structure AsksAbove (low high : Option Int) : Prop where
  above : maxDepthCeiling < low.getD 0
  bounded : 0 < high.getD 0
  within : high.getD 0 ≤ maxDepthCeiling

theorem clampDepths_ordered (low high : Option Int) :
    (clampDepths low high).value.1 = 0 ∨ (clampDepths low high).value.2 = 0 ∨
      (clampDepths low high).value.1 ≤ (clampDepths low high).value.2 := by
  obtain ⟨least, most, -, -, ⟨-, hlt, hvalue⟩ | ⟨hle, hvalue⟩⟩ := clampDepths_cases low high
  · rw [hvalue]
    exact .inr (.inr (Nat.le_of_lt hlt))
  · rw [hvalue]
    exact .inr hle

/-- The largest depth is above the ceiling exactly if it was asked for as the smallest one. -/
theorem clampDepths_le_ceiling_iff (low high : Option Int) :
    (clampDepths low high).value.2 ≤ maxDepthCeiling ↔ ¬ AsksAbove low high := by
  obtain ⟨least, most, hleast, hmost, hcases⟩ := clampDepths_cases low high
  have hceiling : most ≤ maxDepthCeiling := by
    rw [hmost]
    split <;> omega
  obtain ⟨hpos, hlt, hvalue⟩ | ⟨hle, hvalue⟩ := hcases
  · -- The two are swapped, so the largest depth is the one that was not compared with the ceiling.
    rw [hvalue]
    split at hmost
    case isFalse => exact absurd hpos (by omega)
    case isTrue hwithin =>
      have habove : AsksAbove low high ↔ maxDepthCeiling < least := by
        refine ⟨fun h => ?_, fun h => ⟨by omega, by omega, hwithin⟩⟩
        have := h.above
        omega
      rw [habove]
      exact Nat.not_lt.symm
  · rw [hvalue]
    refine ⟨fun _ => ?_, fun _ => hceiling⟩
    rintro ⟨habove, hbounded, hwithin⟩
    rw [if_pos hwithin] at hmost
    omega

/-- Clamping again changes nothing exactly if the largest depth is not above the ceiling. -/
theorem clampDepths_again_iff (low high : Option Int) :
    clampDepths (some (clampDepths low high).value.1) (some (clampDepths low high).value.2) =
      pure (clampDepths low high).value ↔ (clampDepths low high).value.2 ≤ maxDepthCeiling := by
  constructor
  · intro hagain
    have hstored := congrArg (fun depths => depths.value.2) hagain
    have hnot : ¬ AsksAbove (some (clampDepths low high).value.1)
        (some (clampDepths low high).value.2) := by
      rintro ⟨habove, hbounded, hwithin⟩
      have hordered := clampDepths_ordered low high
      simp only [Option.getD_some] at habove hbounded hwithin
      omega
    have hle := (clampDepths_le_ceiling_iff _ _).2 hnot
    rwa [hstored] at hle
  · exact fun hle => clampDepths_of_ordered hle (clampDepths_ordered low high)

/-! ## Resolution -/

/-- No preset has a say in the depths. -/
theorem depths_resolve (files : FileTree) (options : Options) (workingDirectory : Option String) :
    ((resolve files options workingDirectory).value.minDepth,
        (resolve files options workingDirectory).value.maxDepth) =
      (clampDepths options.minDepth options.maxDepth).value := by
  simp only [resolve, Traced.value_bind]
  split
  · next preset _ =>
    have hmin : (options.layeredOn preset.options).minDepth = options.minDepth := by
      cases preset <;> simp [Options.layeredOn, Preset.options]
    have hmax : (options.layeredOn preset.options).maxDepth = options.maxDepth := by
      cases preset <;> simp [Options.layeredOn, Preset.options]
    show (clampDepths (options.layeredOn preset.options).minDepth
      (options.layeredOn preset.options).maxDepth).value = _
    rw [hmin, hmax]
  · rfl

theorem exists_depth_allowed {config : Config}
    (hordered : config.minDepth = 0 ∨ config.maxDepth = 0 ∨ config.minDepth ≤ config.maxDepth) :
    ∃ depth, 1 ≤ depth ∧ depthExclusion config depth = none := by
  refine ⟨if config.tagOnlyRoots then 1 else max 1 config.minDepth, ?_, ?_⟩
  · split <;> omega
  · rw [depthExclusion_eq_none_iff]
    cases config.tagOnlyRoots with
    | true => rfl
    | false =>
        simp only [Bool.false_eq_true, if_false]
        omega

/-- The depths of a configuration are in order and allow some depth. The largest one is not above the
ceiling, and clamping them again changes nothing, unless a smallest depth above the ceiling is asked for
together with a largest one below it. -/
theorem depthWindow_resolve (files : FileTree) (options : Options)
    (workingDirectory : Option String) :
    let config := (resolve files options workingDirectory).value
    (config.minDepth = 0 ∨ config.maxDepth = 0 ∨ config.minDepth ≤ config.maxDepth) ∧
      (∃ depth, 1 ≤ depth ∧ depthExclusion config depth = none) ∧
      (config.maxDepth ≤ maxDepthCeiling ↔ ¬ AsksAbove options.minDepth options.maxDepth) ∧
      (clampDepths (some config.minDepth) (some config.maxDepth) =
        pure (config.minDepth, config.maxDepth) ↔ ¬ AsksAbove options.minDepth options.maxDepth) := by
  intro config
  obtain ⟨hmin, hmax⟩ := Prod.ext_iff.1 (depths_resolve files options workingDirectory)
  have hordered := clampDepths_ordered options.minDepth options.maxDepth
  have hceiling := clampDepths_le_ceiling_iff options.minDepth options.maxDepth
  have hagain := clampDepths_again_iff options.minDepth options.maxDepth
  rw [← depths_resolve files options workingDirectory] at hagain
  rw [← hmin, ← hmax] at hordered
  rw [← hmax] at hceiling
  exact ⟨hordered, exists_depth_allowed hordered, hceiling, hagain.trans hceiling⟩

/-- The depths 100 and 10 are swapped: the largest one is above the ceiling and does not outlive another
clamping. -/
theorem depthWindow_swapped :
    (resolve ⟨[]⟩ { minDepth := some 100, maxDepth := some 10 }).value.minDepth = 10 ∧
      (resolve ⟨[]⟩ { minDepth := some 100, maxDepth := some 10 }).value.maxDepth = 100 ∧
      ¬ 100 ≤ maxDepthCeiling ∧ (clampDepths (some 10) (some 100)).value = (10, 0) :=
  ⟨rfl, rfl, by decide, rfl⟩

end OriginTags.Config
