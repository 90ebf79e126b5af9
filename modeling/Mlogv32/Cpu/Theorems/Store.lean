import Mlogv32.Cpu.Lemmas.Cells
import Mlogv32.Cpu.Lemmas.Store

/-!
# Memory map of stores
-/

namespace Mlogv32.Cpu
open Mlog Logic

/-- A store to a mapped address does not trap. A store to another address raises a store access
fault that changes nothing if and only if it is not SW, whose fast path has no check, and its page
walk does not clear an interrupt flag of a UART. -/
theorem store_access_fault_iff (cfg : Config) (s s' : Hart) (d : Fetched) (rs1 rs2 length address : Int)
    (label : Label) (hlabel : labels (d.opId + 192) = some label)
    (hlen : storeLength label = some length)
    (hsetup : setupLoadAndStoreValue cfg 6 rs1 d.imm length s = .ok address s') :
    (Mapped cfg s address → ∀ t s'', stepPoint cfg (.execute d rs1 rs2) s ≠ (.trap t, s'')) ∧
    (¬Mapped cfg s address →
      (stepPoint cfg (.execute d rs1 rs2) s =
          (.trap { mcause := 7, mtval := effectiveAddress rs1 d.imm }, s) ↔
        label ≠ .SW ∧ ¬WalkClears cfg s (effectiveAddress rs1 d.imm))) := by
  obtain ⟨hframe, hlt⟩ := wp_ok (setupLoadAndStoreValue_storeFrame cfg rs1 d.imm length s) hsetup
  have hflags := wp_ok (setupLoadAndStoreValue_uartFlags cfg rs1 d.imm length s) hsetup
  have hmapped : Mapped cfg s' address ↔ Mapped cfg s address := by
    rcases hframe with rfl | ⟨m, p, rfl, -⟩ <;> rfl
  have hsw : length = 32 ↔ label = .SW := by
    cases label <;> simp only [storeLength, Option.some.injEq, reduceCtorEq] at hlen <;>
      subst hlen <;> decide
  have hstep : stepPoint cfg (.execute d rs1 rs2) s = outcome (fun e _ => .ending e)
      (storeValueAt cfg (effectiveAddress rs1 d.imm) rs2 length address s') := by
    simp only [stepPoint, execute_store hlabel hlen, storeValue_of_setup hsetup]
  have hok : Mapped cfg s address ∨ length = 32 →
      ∀ t s'', stepPoint cfg (.execute d rs1 rs2) s ≠ (.trap t, s'') := by
    intro h t s'' heq
    have hwp := storeValueAt_ok (s := s') (effectiveAddress rs1 d.imm) rs2 hlt (h.imp_left hmapped.mpr)
    rw [hstep] at heq
    cases hx : storeValueAt cfg (effectiveAddress rs1 d.imm) rs2 length address s' with
    | ok e s'' =>
        rw [hx] at heq
        cases heq
    | error t s'' => exact wp_error hwp hx
  refine ⟨fun h => hok (Or.inl h), fun h => ⟨fun heq => ?_, fun hnot => ?_⟩⟩
  · have hne : length ≠ 32 := fun hl => hok (Or.inr hl) _ _ heq
    rw [hstep, storeValueAt_of_not_mapped _ _ hlt (mt hmapped.mp h) hne] at heq
    have hs : s' = s := congrArg Prod.snd heq
    exact ⟨mt hsw.mpr hne, hflags.mp (congrArg Hart.uartFlags hs)⟩
  · obtain ⟨hne, hwalk⟩ := hnot
    rw [hstep, storeValueAt_of_not_mapped _ _ hlt (mt hmapped.mp h) (mt hsw.mp hne),
      hframe.eq_of_uartFlags (hflags.mpr hwalk)]
    rfl

/-- The fetched instruction `sb x2, 0(x1)`. -/
def sbX1 : Fetched :=
  { opId := -50, imm := 0, result := 8933531975680, rdId := 0, rs1Id := 1, rs2Id := 2 }

/-- The fetched instruction `sw x2, 0(x1)`. -/
def swX1 : Fetched :=
  { opId := -48, imm := 0, result := 8933531975680, rdId := 0, rs1Id := 1, rs2Id := 2 }

theorem store_access_fault_sb :
    stepPoint (smallBuild fun _ _ => none) (.execute sbX1 0x80a24000 7) bareHart =
      (.trap { mcause := 7, mtval := 0x80a24000 }, bareHart) :=
  ((store_access_fault_iff (smallBuild fun _ _ => none) bareHart bareHart sbX1
    0x80a24000 7 8 0x80a24000 .SB
    (by decide +kernel) rfl (setupLoadAndStoreValue_machine (by decide) (by decide +kernel))).2
      (by decide)).mpr
    ⟨by decide, fun h => absurd h.1 (by decide)⟩

/-- A store word above RAM overwrites an entry of INCR. -/
theorem sw_unmapped_accepted :
    labels (swX1.opId + 192) = some .SW ∧
    setupLoadAndStoreValue (smallBuild fun _ _ => none) 6 0x80a24000 swX1.imm 32 bareHart =
      .ok 0x80a24000 bareHart ∧
    ¬Mapped (smallBuild fun _ _ => none) bareHart 0x80a24000 ∧
    (stepPoint (smallBuild fun _ _ => none) (.execute swX1 0x80a24000 7) bareHart).1 =
      .ending (.endInstructionWithRd 0 0) ∧
    (stepPoint (smallBuild fun _ _ => none) (.execute swX1 0x80a24000 7) bareHart).2.procs (9, 21) 0 =
      .num 0x07000000 ∧
    bareHart.procs (9, 21) 0 = .var 1 := by
  refine ⟨by decide +kernel, setupLoadAndStoreValue_machine (by decide)
    (by decide +kernel), by decide, ?_, ?_, ?_⟩
  · decide +kernel
  · decide +kernel
  · exact start_incr (smallBuild fun _ _ => none) (fun _ _ => 0) 0
end Mlogv32.Cpu
