import Walkrie.Provider.Cache
import Walkrie.Config.App

/-!
# The size of a batch

`batch_size` is a 64-bit integer in the document, an `int` while it is loaded,
a `size_t` in the settings, an `int` in the embedding configuration and a
`size_t` again when the size of the cache is computed from it.  Validation
looks at the `size_t` only, so it rejects the values whose low 32 bits are
zero and no other.
-/

namespace Walkrie
namespace Config

open Provider (cacheSizeForBatch doubleUntil)

/-- A document with this size of a batch. -/
def Document.SetsBatchSize (document : Document) (value : Int64) : Prop :=
  ∃ app, document.app = some app ∧
    app.lookup "batch_size" = some (.integer value)

/-- If validation does not complain about the size of a batch, the dispatcher
and the embedding provider get it as it is, and the size of the cache is the
least power of two that is enough. -/
def Usable (value : Int64) : Prop :=
  ∀ files document, document.SetsBatchSize value →
    batchSizeError ∉ (loadConfig document).validate files →
      1 ≤ value.toInt ∧
        ((loadConfig document).settings.batchSize.toNat : Int) =
          value.toInt ∧
        (loadConfig document).embedding.maxBatchSize.toInt = value.toInt ∧
        ∃ turns size,
          cacheSizeForBatch turns
              (loadConfig document).embedding.maxBatchSize.toInt64.toUInt64 =
            some size ∧
          IsLeast { power | ∃ exponent, power = 2 ^ exponent ∧
            max value.toInt.toNat 16 ≤ power } size.toNat

/-! ## Doubling -/

section Doubling

variable {bound size : UInt64}

theorem toNat_double
    (size : UInt64) :
    (size <<< 1).toNat = size.toNat * 2 % 2 ^ 64 := by
  have one : (1 : UInt64).toNat % 64 = 1 := rfl
  rw [UInt64.toNat_shiftLeft, one, Nat.shiftLeft_eq, pow_one]

/-- Up to half of the range the loop ends with the least power of two. -/
theorem doubleUntil_eq
    (fits : bound.toNat ≤ 2 ^ 63)
    (turns exponent : Nat)
    (power : size.toNat = 2 ^ exponent)
    (ends : exponent + turns = Nat.clog 2 bound.toNat) :
    ∃ final, doubleUntil bound (turns + 1) size = some final ∧
      final.toNat = 2 ^ Nat.clog 2 bound.toNat := by
  induction turns generalizing size exponent with
  | zero =>
      have enough : ¬size < bound := by
        rw [UInt64.lt_iff_toNat_lt, power]
        have := Nat.le_pow_clog (b := 2) (by decide) bound.toNat
        rw [← ends] at this
        exact Nat.not_lt.mpr this
      refine ⟨size, by rw [doubleUntil, if_neg enough], ?_⟩
      rw [power, ← ends]
      rfl
  | succ turns inductionHypothesis =>
      have early : exponent < Nat.clog 2 bound.toNat := by omega
      have below : size < bound := by
        rw [UInt64.lt_iff_toNat_lt, power]
        exact (Nat.lt_clog_iff_pow_lt (by decide)).mp early
      have room : 2 ^ (exponent + 1) ≤ 2 ^ 63 := by
        refine Nat.pow_le_pow_right (by decide) (early.trans_le ?_)
        exact Nat.clog_le_of_le_pow fits
      have doubled : (size <<< 1).toNat = 2 ^ (exponent + 1) := by
        rw [toNat_double, power, ← pow_succ, Nat.mod_eq_of_lt]
        exact room.trans_lt (by decide)
      rw [doubleUntil, if_pos below]
      exact inductionHypothesis (exponent + 1) doubled (by omega)

/-- Beyond half of the range the size wraps to zero before it reaches the
bound, and stays zero. -/
theorem doubleUntil_eq_none
    (large : 2 ^ 63 < bound.toNat)
    (turns : Nat)
    (reached : size.toNat = 0 ∨ ∃ exponent ≤ 63, size.toNat = 2 ^ exponent) :
    doubleUntil bound turns size = none := by
  induction turns generalizing size with
  | zero => rfl
  | succ turns inductionHypothesis =>
      have below : size < bound := by
        rw [UInt64.lt_iff_toNat_lt]
        rcases reached with zero | ⟨exponent, small, power⟩
        · omega
        · rw [power]
          exact (Nat.pow_le_pow_right (by decide) small).trans_lt large
      rw [doubleUntil, if_pos below]
      refine inductionHypothesis ?_
      rw [toNat_double]
      rcases reached with zero | ⟨exponent, small, power⟩
      · exact .inl (by rw [zero, Nat.zero_mul, Nat.zero_mod])
      · rw [power, ← pow_succ]
        rcases Nat.lt_or_eq_of_le small with smaller | rfl
        · refine .inr ⟨exponent + 1, smaller, Nat.mod_eq_of_lt ?_⟩
          exact Nat.pow_lt_pow_right (by decide) (by omega)
        · exact .inl rfl

theorem toNat_atLeastSixteen
    (size : UInt64) :
    (if size < 16 then 16 else size).toNat = max size.toNat 16 := by
  have sixteen : (16 : UInt64).toNat = 16 := rfl
  rw [apply_ite UInt64.toNat, sixteen]
  split <;> rename_i small <;> rw [UInt64.lt_iff_toNat_lt, sixteen] at small <;>
    omega

/-- The size of the cache is the least power of two that is enough. -/
theorem cacheSizeForBatch_isLeast
    (fits : size.toNat ≤ 2 ^ 63) :
    ∃ turns final, cacheSizeForBatch turns size = some final ∧
      IsLeast { power | ∃ exponent, power = 2 ^ exponent ∧
        max size.toNat 16 ≤ power } final.toNat := by
  have bound := toNat_atLeastSixteen size
  have one : (1 : UInt64).toNat = 2 ^ 0 := rfl
  obtain ⟨final, computed, power⟩ := doubleUntil_eq
    (bound.trans_le (max_le fits (by decide))) _ 0 one (Nat.zero_add _)
  refine ⟨_, final, computed, ?_⟩
  rw [bound] at power
  refine ⟨⟨_, power, ?_⟩, ?_⟩
  · rw [power]
    exact Nat.le_pow_clog (by decide) _
  · rintro other ⟨exponent, rfl, enough⟩
    rw [power]
    exact Nat.pow_le_pow_right (by decide) (Nat.clog_le_of_le_pow enough)

/-- No number of turns is enough for a size that was negative. -/
theorem cacheSizeForBatch_eq_none
    (large : 2 ^ 63 < size.toNat)
    (turns : Nat) :
    cacheSizeForBatch turns size = none := by
  have one : (1 : UInt64).toNat = 2 ^ 0 := rfl
  refine doubleUntil_eq_none ?_ turns (.inr ⟨0, by decide, one⟩)
  rw [toNat_atLeastSixteen]
  exact large.trans_le (le_max_left _ _)

end Doubling

/-! ## Conversions -/

section Conversions

variable {value : Int64}
variable {document : Document}

/-- What an `int` becomes as a `size_t`. -/
theorem toInt_bmod_toUInt64
    (narrow : Int32) :
    (narrow.toInt64.toUInt64.toNat : Int).bmod (2 ^ 64) = narrow.toInt := by
  rw [← UInt64.toNat_toBitVec, Int64.toBitVec_toUInt64,
    ← BitVec.toInt_eq_toNat_bmod, Int64.toInt_toBitVec, Int32.toInt_toInt64]

theorem toNat_toUInt64
    (narrow : Int32) :
    (narrow.toInt64.toUInt64.toNat : Int) =
      if 0 ≤ narrow.toInt then narrow.toInt else narrow.toInt + 2 ^ 64 := by
  have wraps := toInt_bmod_toUInt64 narrow
  have below := narrow.toInt64.toUInt64.toNat_lt
  rw [Int.bmod_def] at wraps
  split at wraps <;> split <;> omega

/-- The values that become zero. -/
theorem toNat_eq_zero_iff
    (value : Int64) :
    value.toInt32.toInt64.toUInt64.toNat = 0 ↔ value.toInt % 2 ^ 32 = 0 := by
  have narrow := Int64.toInt_toInt32 value
  have size := toNat_toUInt64 value.toInt32
  have least := value.toInt32.le_toInt
  rw [Int.bmod_def] at narrow
  split at narrow <;> split at size <;> omega

/-- The values an `int` has. -/
theorem toInt32_eq_self
    (positive : 1 ≤ value.toInt)
    (small : value.toInt < 2 ^ 31) :
    value.toInt32.toInt = value.toInt := by
  rw [Int64.toInt_toInt32, Int.bmod_def]
  split <;> omega

/-- The size of a batch in the two places it is used. -/
theorem loadConfig_batchSize
    (sets : document.SetsBatchSize value) :
    (loadConfig document).settings.batchSize =
        value.toInt32.toInt64.toUInt64 ∧
      (loadConfig document).embedding.maxBatchSize = value.toInt32 := by
  obtain ⟨app, present, found⟩ := sets
  simp [loadConfig, present, loadSettings, i32, found]

/-- Validation rejects a size of zero. -/
theorem batchSizeError_mem
    (files : FileSystem)
    {config : AppConfig}
    (zero : config.settings.batchSize.toNat = 0) :
    batchSizeError ∈ config.validate files := by
  have rejected : config.settings.batchSize < 1 := by
    rw [UInt64.lt_iff_toNat_lt, zero]
    decide
  have listed : batchSizeError ∈
      Sink.check (config.settings.batchSize < 1) batchSizeError := by
    simp [Sink.check, rejected]
  unfold AppConfig.validate
  simp only [List.mem_append, listed, true_or, or_true]

/-- The document that sets the size of a batch and nothing else. -/
def onlyBatchSize (value : Int64) : Document :=
  { app := some (AList.singleton "batch_size" (.integer value)) }

theorem setsBatchSize_onlyBatchSize
    (value : Int64) :
    (onlyBatchSize value).SetsBatchSize value :=
  ⟨_, rfl, rfl⟩

theorem batchSizeError_not_mem
    (accepted : value.toInt32.toInt64.toUInt64.toNat ≠ 0)
    (files : FileSystem) :
    batchSizeError ∉ (loadConfig (onlyBatchSize value)).validate files := by
  have size := (loadConfig_batchSize (setsBatchSize_onlyBatchSize value)).1
  have kept : ¬(loadConfig (onlyBatchSize value)).settings.batchSize < 1 := by
    rw [size, UInt64.lt_iff_toNat_lt]
    have one : (1 : UInt64).toNat = 1 := rfl
    omega
  unfold AppConfig.validate
  simp only [List.mem_append, not_or]
  refine ⟨⟨⟨⟨⟨⟨?_, ?_⟩, ?_⟩, ?_⟩, ?_⟩, ?_⟩, ?_⟩
  · exact (show batchSizeError ∉ ([] : List String) by simp)
  · simp [Sink.check, kept]
  · exact (show batchSizeError ∉ ([] : List String) by simp)
  · exact (show batchSizeError ∉
      ["[source] at least one [[source]] block is required"] by decide)
  · exact (show batchSizeError ∉ ([] : List String) by simp)
  · exact (show batchSizeError ∉
      ["[embedding] model_path is required when provider = 'llama'"] by decide)
  · exact (show batchSizeError ∉ ([] : List String) by simp)

end Conversions

/-- A value that is negative as an `int` is accepted, and the loop over the
size of the cache never ends. -/
theorem cacheSizeForBatch_negative
    {value : Int64}
    (negative : value.toInt32.toInt < 0)
    {document : Document}
    (sets : document.SetsBatchSize value)
    (turns : Nat) :
    cacheSizeForBatch turns
        (loadConfig document).embedding.maxBatchSize.toInt64.toUInt64 =
      none := by
  rw [(loadConfig_batchSize sets).2]
  have size := toNat_toUInt64 value.toInt32
  have least := value.toInt32.le_toInt
  rw [if_neg (by omega)] at size
  exact cacheSizeForBatch_eq_none (by omega) turns

/-- A size of a batch is usable exactly when it is rejected, which happens when
its low 32 bits are zero, or is a positive `int`. -/
theorem usable_iff
    (value : Int64) :
    Usable value ↔
      value.toInt % 2 ^ 32 = 0 ∨ 1 ≤ value.toInt ∧ value.toInt < 2 ^ 31 := by
  constructor
  · intro usable
    by_cases zero : value.toInt % 2 ^ 32 = 0
    · exact .inl zero
    · have sets := setsBatchSize_onlyBatchSize value
      have accepted := mt (toNat_eq_zero_iff value).mp zero
      obtain ⟨positive, _, same, _⟩ := usable (fun _ => .missing)
        (onlyBatchSize value) sets (batchSizeError_not_mem accepted _)
      rw [(loadConfig_batchSize sets).2] at same
      exact .inr ⟨positive, same ▸ value.toInt32.toInt_lt⟩
  · rintro (zero | ⟨positive, small⟩) files document sets accepted
    · refine absurd (batchSizeError_mem files ?_) accepted
      rw [(loadConfig_batchSize sets).1]
      exact (toNat_eq_zero_iff value).mpr zero
    · have same := toInt32_eq_self positive small
      have size := toNat_toUInt64 value.toInt32
      rw [if_pos (by omega), same] at size
      rw [(loadConfig_batchSize sets).1, (loadConfig_batchSize sets).2]
      refine ⟨positive, size, same, ?_⟩
      have least := cacheSizeForBatch_isLeast
        (show value.toInt32.toInt64.toUInt64.toNat ≤ 2 ^ 63 by omega)
      have natural : value.toInt.toNat =
          value.toInt32.toInt64.toUInt64.toNat := by omega
      rw [natural]
      exact least

/-- A size of minus one is accepted. -/
theorem not_usable_minusOne : ¬Usable (-1) := by
  intro usable
  have accepted : (-1 : Int64).toInt32.toInt64.toUInt64.toNat ≠ 0 := by decide
  obtain ⟨positive, _⟩ := usable (fun _ => .missing) (onlyBatchSize (-1))
    (setsBatchSize_onlyBatchSize (-1)) (batchSizeError_not_mem accepted _)
  revert positive
  decide

end Config
end Walkrie
