import Mlogv32.Cpu.Lemmas.Invariant

/-!
# The privilege mode of any run

Only SRET and MRET change the privilege mode, besides traps and resets. So it has two bits in every
run, also in one whose stores overwrite the processors of the CPU.
-/

namespace Mlogv32.Cpu
open Mlog Logic Isa

variable {cfg : PageConfig} {s : Hart}

/-- The privilege mode, or the reserved mode that MPP can be given if CSR_LABELS was overwritten. -/
def ModeOk (s : Hart) : Prop := 0 ≤ s.privilegeMode ∧ s.privilegeMode ≤ 3

theorem modeOk_of_eq {mode : Int} (h : s.privilegeMode = mode) (hmode : 0 ≤ mode ∧ mode ≤ 3) :
    ModeOk s := by
  rw [ModeOk, h]
  exact hmode

/-- The privilege mode and the reservation. -/
def Hart.control (s : Hart) : Int × Option Int := (s.privilegeMode, s.reservationSet)

/-- The computation keeps the privilege mode. -/
abbrev KeepsMode {α : Type} (x : Op α) : Prop := Keeps Hart.privilegeMode x

/-- The computation keeps the privilege mode and the reservation. -/
abbrev KeepsControl {α : Type} (x : Op α) : Prop := Keeps Hart.control x

theorem KeepsControl.mode {α : Type} {x : Op α} (h : KeepsControl x) : KeepsMode x := fun s =>
  wp_mono (h s) (fun _ _ h => congrArg Prod.fst h) fun _ _ h => congrArg Prod.fst h

theorem LoadFrame.control {s' : Hart} (h : LoadFrame s s') : s'.control = s.control := by
  obtain ⟨_, _, _, rfl, _⟩ := h
  rfl

/-! ## Helpers of the handlers -/

theorem translateVirtualAddress_control (cfg : PageConfig) (trap : Trap) :
    KeepsControl (translateVirtualAddress cfg trap) := fun s =>
  wp_mono (translateVirtualAddress_frame cfg trap s) (fun _ _ h => h.1.control) fun _ _ h => h.2.control

theorem loadWord_control (cfg : PageConfig) (address : Int) (trap : Trap) :
    KeepsControl (loadWord cfg address trap) := fun s =>
  wp_mono (loadWord_frame cfg address trap s) (fun _ _ h => h.control) fun _ _ h => by rw [h.2]

theorem loadRamOrMmioWord_control (cfg : PageConfig) (address : Int) (trap : Trap) :
    KeepsControl (loadRamOrMmioWord cfg address trap) := fun s =>
  wp_mono (loadRamOrMmioWord_frame cfg address trap s) (fun _ _ h => h.control) fun _ _ h => by rw [h.2]

theorem setupLoadAndStoreValue_control (cfg : PageConfig) (mcause rs1 imm length : Int) :
    KeepsControl (setupLoadAndStoreValue cfg mcause rs1 imm length) := by
  intro s
  simp only [setupLoadAndStoreValue, wp_bind, wp_get, wp_ite, wp_throw, wp_pure]
  exact ⟨fun _ => trivial, fun _ => ⟨fun _ => translateVirtualAddress_control cfg _ s, fun _ => trivial⟩⟩

theorem atomicValidateAddress_control (cfg : PageConfig) (mcause rs1 : Int) :
    KeepsControl (atomicValidateAddress cfg mcause rs1) := fun s =>
  wp_mono (@atomicValidateAddress_correct cfg rs1 s mcause)
    (fun _ _ h => h.1.control) fun _ _ h => h.1.control

theorem storeRamWordUnchecked_control (cfg : PageConfig) (address value : Int) (slot : Tile × Value)
    (rdId rd : Int) :
    KeepsControl (storeRamWordUnchecked cfg address value slot rdId rd) := by
  intro s
  simp only [storeRamWordUnchecked, wp_bind, wp_get, wp_set, wp_pure]
  split <;> rfl

theorem storeMmioWordUnchecked_control (cfg : PageConfig) (address value : Int) :
    KeepsControl (storeMmioWordUnchecked cfg address value) := by
  intro s
  simp only [storeMmioWordUnchecked, wp_bind, wp_get, wp_ite, wp_set, wp_pure]
  refine ⟨fun _ => ⟨fun _ => rfl, fun _ => ⟨fun _ => rfl, fun _ => trivial⟩⟩, fun _ => ?_⟩
  split
  · rfl
  · split
    · rfl
    · split <;> rfl

/-! ## Handlers -/

theorem unconditionalJump_control (rdId nextPc : Int) :
    KeepsControl (unconditionalJump rdId nextPc) := by
  intro s
  simp only [unconditionalJump, wp_bind, wp_get, wp_ite, wp_throw, wp_set, wp_pure]
  refine ⟨fun _ => trivial, fun _ => ⟨fun _ => rfl, fun _ => ⟨fun _ => rfl, fun _ => ?_⟩⟩⟩
  split <;> exact rfl

theorem loadValue_control (cfg : PageConfig) (d : Fetched) (rs1 length : Int) (signed : Bool) :
    KeepsControl (loadValue cfg d rs1 length signed) := by
  refine (setupLoadAndStoreValue_control cfg 4 rs1 d.imm length).bind fun address =>
    Keeps.bind ?_ fun _ => keeps_pure _
  exact (loadWord_control cfg address _).bind fun _ => keeps_pure _

theorem storeValue_control (cfg : PageConfig) (d : Fetched) (rs1 rs2 length : Int) :
    KeepsControl (storeValue cfg d rs1 rs2 length) := by
  have hstore (address value : Int) (slot : Tile × Value) :
      KeepsControl (if opAnd address 0xfffffffc ≥ mmioStart then
        storeMmioWordUnchecked cfg (opAnd address 0xfffffffc) value
        else storeRamWordUnchecked cfg (opAnd address 0xfffffffc) value slot 0 0) :=
    .ite (storeMmioWordUnchecked_control cfg _ value)
      (storeRamWordUnchecked_control cfg _ value slot 0 0)
  refine (setupLoadAndStoreValue_control cfg 6 rs1 d.imm length).bind fun address => ?_
  refine .ite (keeps_pure _) (.ite ?_ ?_)
  · exact (keeps_pure _).bind fun value => hstore address value _
  · exact (loadRamOrMmioWord_control cfg address _).bind fun _ => (keeps_pure _).bind fun value =>
      hstore address value _

theorem amo_control (cfg : PageConfig) (d : Fetched) (rs1 rs2 : Int) :
    KeepsControl (amo cfg d rs1 rs2) :=
  (atomicValidateAddress_control cfg 6 rs1).bind fun address => keeps_get.bind fun _ =>
    storeRamWordUnchecked_control cfg address _ _ d.rdId _

theorem csrRead_control (cfg : PageConfig) (imm : Int) (csrVar : Value) (read : CsrRead) :
    KeepsControl (csrRead cfg imm csrVar read) :=
  fun s => wp_mono (csrRead_state cfg imm csrVar read s) (fun _ _ h => by rw [h]) fun _ _ h => by
    rw [h.2]

theorem csrWrite_control (cfg : PageConfig) (read : CsrRead) (csrVar : Value) (result rdId rd : Int)
    (write : CsrWrite) :
    KeepsControl (csrWrite cfg read csrVar result rdId rd write) := by
  intro s
  cases write with
  | sip =>
      simp only [csrWrite, wp_bind, wp_ite, wp_modify, wp_pure]
      exact ⟨fun _ => trivial, fun _ => rfl⟩
  | sie =>
      simp only [csrWrite, wp_bind, wp_ite, wp_modify, wp_pure]
      exact ⟨fun _ => trivial, fun _ => rfl⟩
  | _ => exact rfl

theorem modifyCsr_control (cfg : PageConfig) (d : Fetched) (op : ModifyCsrOp) (rs1 : Int) :
    KeepsControl (modifyCsr cfg d op rs1) := by
  intro s
  simp only [modifyCsr, wp_bind, wp_get, wp_ite, wp_throw]
  refine ⟨fun _ => trivial, fun _ => ?_⟩
  split
  · exact rfl
  · rename_i read _
    simp only [wp_bind]
    refine wp_mono (csrRead_control cfg d.imm _ read s) (fun rd s' h => ?_) fun _ _ h => h
    simp only [wp_ite, wp_pure]
    refine ⟨fun _ => h, fun _ => ?_⟩
    split
    · exact h
    · exact wp_mono (csrWrite_control cfg read _ _ d.rdId rd _ s') (fun _ _ h' =>
        h'.trans h) fun _ _ h' => h'.trans h

theorem mlogsysLoop_control (cfg : PageConfig) (fuel : Nat) (address : Int) (ram : Tile) (v : Value)
    (s : Hart) :
    (mlogsysLoop cfg fuel address ram v s).control = s.control := by
  induction fuel generalizing address ram v s with
  | zero => rfl
  | succ fuel ih =>
      rw [mlogsysLoop]
      dsimp only
      split
      · rw [ih]
        rfl
      · rfl

/-- Only LR, SC and the returns change the privilege mode or the reservation. -/
theorem handler_control (cfg : PageConfig) (d : Fetched) (rs1 rs2 : Int) {label : Label}
    (h : label ∉ [.PRIV, .LR_W, .SC_W]) : KeepsControl (handler cfg d rs1 rs2 label) := by
  have hbranch (taken : Bool) : KeepsControl (branch taken d.imm) := by
    cases taken with
    | false => exact keeps_pure _
    | true => exact keeps_get.bind fun _ => unconditionalJump_control 0 _
  cases label with
  | PRIV | LR_W | SC_W => simp at h
  | MLOGSYS =>
      intro s
      simp only [handler, mlogsys, wp_bind, wp_get, wp_ite, wp_throw, wp_set, wp_pure]
      exact ⟨fun _ => trivial, fun _ => mlogsysLoop_control cfg _ _ _ _ _⟩
  | JAL => exact keeps_get.bind fun _ => unconditionalJump_control d.rdId _
  | JALR => exact unconditionalJump_control d.rdId _
  | LB | LH | LW | LBU | LHU => exact loadValue_control cfg d rs1 _ _
  | SB | SH | SW => exact storeValue_control cfg d rs1 rs2 _
  | AMOADD_W | AMOSWAP_W | AMOXOR_W | AMOOR_W | AMOAND_W | AMOMIN_W | AMOMAX_W | AMOMINU_W | AMOMAXU_W =>
      exact amo_control cfg d rs1 rs2
  | CSRRW | CSRRS | CSRRC | CSRRWI | CSRRSI | CSRRCI => exact modifyCsr_control cfg d _ _
  | BEQ | BNE | BLT | BLTU | BGE | BGEU => exact hbranch _
  | _ => exact fun _ => rfl

/-! ## LR and SC -/

theorem lrW_mode (cfg : PageConfig) (d : Fetched) (rs1 : Int) : KeepsMode (lrW cfg d rs1) := by
  refine (atomicValidateAddress_control cfg 4 rs1).mode.bind fun address s => ?_
  simp only [wp_bind, wp_get, wp_set, wp_pure]

theorem scW_mode (cfg : PageConfig) (d : Fetched) (rs1 rs2 : Int) : KeepsMode (scW cfg d rs1 rs2) := by
  refine (atomicValidateAddress_control cfg 6 rs1).mode.bind fun address s => ?_
  simp only [wp_bind, wp_get, wp_set, wp_ite, wp_pure]
  refine ⟨fun _ => ?_, fun _ => trivial⟩
  exact (storeRamWordUnchecked_control cfg address rs2 _ d.rdId 0).mode { s with reservationSet := none }

/-! ## Returns -/

theorem sretMode (mstatus : Int) :
    0 ≤ opShr (opAnd mstatus 0b100000000) 8 ∧ opShr (opAnd mstatus 0b100000000) 8 ≤ 3 := by
  have hspp := opAnd_two_pow mstatus (k := 8) (by decide)
  change opAnd mstatus 0b100000000 = _ at hspp
  rw [hspp]
  split <;> decide

theorem mretMode (mstatus : Int) :
    0 ≤ opShr (opAnd mstatus 0b1100000000000) 11 ∧ opShr (opAnd mstatus 0b1100000000000) 11 ≤ 3 := by
  have hmpp := opAnd_two_pow_add mstatus (i := 11) (j := 12) (by decide) (by decide)
  change opAnd mstatus 0b1100000000000 = _ at hmpp
  rw [hmpp]
  cases bit mstatus 11 <;> cases bit mstatus 12 <;> decide

theorem privHandler_mode (imm : Int) (h : ModeOk s) :
    wp (privHandler cfg imm) (fun _ s' => ModeOk s') (fun _ s' => ModeOk s') s := by
  simp only [privHandler, wp_bind, wp_get]
  split
  · exact h
  · exact h
  · exact h
  · exact h
  · simp only [sret, wp_bind, wp_get, wp_ite, wp_throw, wp_set, wp_pure]
    exact ⟨fun _ => h, fun _ => sretMode s.csrMstatus⟩
  · simp only [sfenceVma, wp_bind, wp_get, wp_ite, wp_throw, wp_set, wp_pure]
    exact ⟨fun _ => h, fun _ => h⟩
  · exact mretMode s.csrMstatus

theorem Keeps.modeOk {α : Type} {x : Op α} (hx : KeepsMode x) (h : ModeOk s) :
    wp x (fun _ s' => ModeOk s') (fun _ s' => ModeOk s') s :=
  wp_mono (hx s) (fun _ _ hs => by rw [ModeOk, hs]; exact h) fun _ _ hs => by rw [ModeOk, hs]; exact h

theorem privHandler_reservation (cfg : PageConfig) (imm : Int) :
    Keeps Hart.reservationSet (privHandler cfg imm) := by
  intro s
  simp only [privHandler, wp_bind, wp_get]
  split
  · exact rfl
  · exact rfl
  · exact rfl
  · exact rfl
  · simp only [sret, wp_bind, wp_get, wp_ite, wp_throw, wp_set, wp_pure]
    exact ⟨fun _ => trivial, fun _ => rfl⟩
  · simp only [sfenceVma, wp_bind, wp_get, wp_ite, wp_throw, wp_set, wp_pure]
    exact ⟨fun _ => trivial, fun _ => trivial⟩
  · exact rfl

theorem execute_mode (d : Fetched) (rs1 rs2 : Int) (h : ModeOk s) :
    wp (execute cfg d rs1 rs2) (fun _ s' => ModeOk s') (fun _ s' => ModeOk s') s := by
  unfold execute
  split
  · rename_i label _
    by_cases hlabel : label ∈ [.PRIV, .LR_W, .SC_W]
    · simp only [List.mem_cons, List.not_mem_nil, or_false] at hlabel
      rcases hlabel with rfl | rfl | rfl
      · exact privHandler_mode d.imm h
      · exact Keeps.modeOk (lrW_mode cfg d rs1) h
      · exact Keeps.modeOk (scW_mode cfg d rs1 rs2) h
    · exact Keeps.modeOk (handler_control cfg d rs1 rs2 hlabel).mode h
  · exact h

/-! ## Runs -/

section Fetch

variable {β : Type} {f : Hart → β} (hload : ∀ s s', LoadFrame s s' → f s' = f s)
  (hwork : ∀ s nextPc imm ram v,
    f { s with nextPc := nextPc, imm := imm, icacheRam := ram, icacheVar := v } = f s)

include hwork

theorem mainReadIcache_keeps (cfg : PageConfig) : Keeps f (mainReadIcache cfg) := by
  intro s
  simp only [mainReadIcache, wp_bind, wp_get]
  split
  · exact hwork s s.nextPc _ s.icacheRam _
  · exact rfl

include hload in
theorem mainSlowInstructionFetch_keeps (cfg : PageConfig) (address : Int) :
    Keeps f (mainSlowInstructionFetch cfg address) := by
  refine keeps_get.bind fun s => .ite (keeps_throw _) (Keeps.bind (fun s => ?_) fun w =>
    keeps_get.bind fun s' => ?_)
  · exact wp_mono (loadWord_frame cfg address _ s) (fun _ s' h => hload s s' h) fun _ _ h => by rw [h.2]
  · exact Keeps.bind (keeps_modify fun s => hwork s s.nextPc _ s.icacheRam s.icacheVar) fun _ =>
      keeps_pure _

theorem mainAccessRamIcache_keeps (cfg : PageConfig) (address : Int) :
    Keeps f (mainAccessRamIcache cfg address) :=
  Keeps.bind (keeps_modify fun s => hwork s s.nextPc s.imm _ _) fun _ => mainReadIcache_keeps hwork cfg

include hload in
/-- The fetch changes what a load changes, and the variables of the cursor. -/
theorem fetch_keeps (cfg : PageConfig) : Keeps f (fetch cfg) := by
  have haddress : Keeps f (fetchAddress cfg) := fun s =>
    wp_mono (fetchAddress_frame cfg s) (fun _ s' h => hload s s' h.1) fun _ s' h => hload s s' h.2
  have hread := mainReadIcache_keeps hwork cfg
  have hicache (address : Int) := mainAccessRamIcache_keeps hwork cfg address
  have hslow (address : Int) := mainSlowInstructionFetch_keeps hload hwork cfg address
  refine Keeps.bind (keeps_modify fun s => hwork s _ s.imm s.icacheRam s.icacheVar) fun _ =>
      keeps_get.bind fun _ =>
    .ite hread ?_
  refine haddress.bind fun address => keeps_get.bind fun _ => .ite (hicache _) ?_
  exact .ite (hslow _) (.ite (hicache _) (hslow _))

end Fetch

theorem fetch_control (cfg : PageConfig) : KeepsControl (fetch cfg) :=
  fetch_keeps (fun _ _ h => h.control) (fun _ _ _ _ _ => rfl) cfg

theorem finish_control (cfg : PageConfig) (s : Hart) (e : End) :
    (finish cfg s e).2.control = s.control := by
  cases hretires : e.retires with
  | false =>
      cases e with
      | reset => rfl
      | lost => rfl
      | _ => cases hretires
  | true =>
      rw [finish_eq cfg s hretires, endInstructionTrap_snd]
      unfold retiredHart incrementInstret writeRd
      dsimp only
      split <;> split <;> rfl

theorem trapCheckMxdeleg_mode (cfg : PageConfig) (mxdeleg : Int) (t : Trap) (s : Hart) :
    ModeOk (trapCheckMxdeleg cfg mxdeleg t s).2 := by
  obtain ⟨c, mode, mstatus, e, hmode, heq⟩ := trapCheckMxdeleg_eq cfg mxdeleg t s
  rw [heq]
  rcases hmode with ⟨-, rfl, -⟩ | ⟨-, rfl⟩
  · exact modeOk_of_eq (rfl : _ = (1 : Int)) (by decide)
  · exact modeOk_of_eq (rfl : _ = (3 : Int)) (by decide)

theorem stepPoint_mode (p : Point) (h : ModeOk s) : ModeOk (stepPoint cfg p s).2 := by
  cases p with
  | pollInterrupts => exact h
  | fireInterrupts =>
      rcases fireInterrupts_cases cfg s with heq | ⟨i, heq⟩
      · rw [stepPoint, heq]
        exact h
      · rw [stepPoint, heq]
        exact trapCheckMxdeleg_mode cfg _ _ _
  | main =>
      have hfetch := Keeps.modeOk (fetch_control cfg).mode h
      rw [stepPoint]
      cases hx : fetch cfg s with
      | ok d s' => exact (wp_ok hfetch hx :)
      | error t s' => exact (wp_error hfetch hx :)
  | execute d rs1 rs2 =>
      have hexecute := @execute_mode cfg _ d rs1 rs2 h
      rw [stepPoint]
      cases hx : execute cfg d rs1 rs2 s with
      | ok e s' => exact (wp_ok hexecute hx :)
      | error t s' => exact (wp_error hexecute hx :)
  | ending e =>
      have hmode : (finish cfg s e).2.privilegeMode = s.privilegeMode :=
        congrArg Prod.fst (finish_control cfg s e)
      rw [ModeOk, stepPoint, hmode]
      exact h
  | trap t => exact trapCheckMxdeleg_mode cfg _ t s
  | reset => exact h
  | lost => exact h

theorem Machine.apply_mode {m : Machine} (h : ModeOk m.hart) (e : Event) :
    ModeOk (m.apply cfg e).hart := by
  cases e with
  | reset => exact modeOk_of_eq (rfl : _ = (3 : Int)) (by decide)
  | device uarts => exact h
  | tick delta =>
      rw [Machine.apply]
      split <;> exact h
  | handOff =>
      rw [Machine.apply]
      split
      · unfold incrementMcycle
        dsimp only
        split <;> exact h
      · exact h
  | step => exact stepPoint_mode m.point h

/-- In every run, whatever its stores overwrite, the privilege mode has two bits. -/
theorem Reaches.modeOk {guard : Machine → Event → Prop} {m : Machine} (h : Reaches cfg guard m) :
    ModeOk m.hart := by
  refine Reachable.invariant (I := fun m => ModeOk m.hart) (fun m hm => ?_) (fun m e hm _ =>
    Machine.apply_mode hm e) h
  obtain ⟨uarts, rfl⟩ := hm
  exact modeOk_of_eq (rfl : _ = (3 : Int)) (by decide)

end Mlogv32.Cpu
