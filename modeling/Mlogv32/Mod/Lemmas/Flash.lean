import Mlogv32.Build.Lemmas.Rom
import Mlogv32.Logic.Wp
import Mlogv32.Mod.ProcessorAccess

/-!
# Flashing ROM

`flashRom` fills the processors in order, and the last one with what is left.
-/

namespace Mlogv32.Mod
open Mlog Cpu Build Logic

variable {cfg : Config} {data : List (Fin 256)} {procs : RomStrings}

theorem require_pos {σ : Type} {c : Prop} [Decidable c] (h : c) {message : String} {s : σ} :
    require c message s = .ok () s := by
  rw [require, if_pos h]
  rfl

theorem require_neg {σ : Type} {c : Prop} [Decidable c] (h : ¬c) {message : String} {s : σ} :
    require c message s = .error (.illegalArgument message) s := by
  rw [require, if_neg h]
  rfl

/-- The strings after the first `n` processors are flashed. -/
def flashed (cfg : Config) (procs : RomStrings) (data : List (Fin 256)) : Nat → RomStrings
  | 0 => procs
  | n + 1 => Function.update (flashed cfg procs data n) (cfg.tile n) (some (chunk data n))

/-- Every ROM processor is there. -/
def RomPresent (cfg : Config) (procs : RomStrings) : Prop :=
  ∀ k : Nat, 16384 * (k : Int) < cfg.romSize → (procs (cfg.tile k)).isSome

theorem flashed_isSome (h : RomPresent cfg procs) (n : Nat) :
    RomPresent cfg (flashed cfg procs data n) := by
  induction n with
  | zero => exact h
  | succ n ih =>
      intro k hk
      rw [flashed, Function.update_apply]
      split
      · rfl
      · exact ih k hk

theorem flashed_tile {k n : Nat} (h : k < n) :
    flashed cfg procs data n (cfg.tile k) = some (chunk data k) := by
  induction n with
  | zero => omega
  | succ n ih =>
      rw [flashed, Function.update_apply]
      split
      · rename_i heq
        have hk := cfg.tile_inj (by omega) (by omega) heq
        rw [show k = n by omega]
      · rename_i hne
        have hkn : k ≠ n := fun hkn => hne (hkn ▸ rfl)
        exact ih (by omega)

theorem getRomProc_eq {k : Nat} (h : RomPresent cfg procs) (hk : 16384 * (k : Int) < cfg.romSize) :
    getRomProc cfg procs (16384 * k) = some (cfg.tile k) := by
  have hw := cfg.memoryWidth_pos
  have htile : cfg.tile k = (cfg.memoryX + (k % cfg.memoryWidth : Nat), cfg.memoryY +
      (k / cfg.memoryWidth : Nat)) := by
    rw [PageConfig.tile, procTile, opMod_eq (by omega) (by omega),
      opIdiv_eq _ (by omega), add_comm cfg.memoryX, add_comm cfg.memoryY]
    rfl
  rw [getRomProc, if_pos (by push_cast; omega), Nat.mul_div_cancel_left k (by decide)]
  dsimp only
  rw [← htile, if_pos (h k hk)]

theorem flashRomProc_ok {n : Nat} {bytes : List (Fin 256)} (h : RomPresent cfg procs)
    (hn : 16384 * (n : Int) < cfg.romSize) (hbytes : bytes = (data.drop (16384 * n)).take 16384) :
    flashRomProc cfg (16384 * n) bytes (flashed cfg procs data n) =
      .ok () (flashed cfg procs data (n + 1)) := by
  rw [flashRomProc, bind_get, getRomProc_eq (flashed_isSome h n) hn, flashed, chunk, hbytes]
  simp only [Nat.add_comm 174]
  rfl

/-- The loop, from the bytes that are done on. -/
theorem flashRom_loop (h : RomPresent cfg procs) (hsize : (data.length : Int) ≤ cfg.romSize)
    {rest bytes : List (Fin 256)} {n : Nat} (hdata : data.drop (16384 * n) = bytes ++ rest)
    (hlt : bytes.length < 16384) (hn : 16384 * n ≤ data.length) :
    rest.foldlM (flashRomStep cfg) (16384 * n, bytes) (flashed cfg procs data n) =
      .ok (16384 * (data.length / 16384), data.drop (16384 * (data.length / 16384)))
        (flashed cfg procs data (data.length / 16384)) := by
  have hlen := congrArg List.length hdata
  rw [List.length_drop, List.length_append] at hlen
  induction rest generalizing bytes n with
  | nil =>
      rw [List.append_nil] at hdata
      rw [List.length_nil] at hlen
      have hdone : data.length / 16384 = n := by omega
      rw [hdone, hdata]
      rfl
  | cons byte rest ih =>
      rw [List.length_cons] at hlen
      have hdata' : data.drop (16384 * n) = (bytes ++ [byte]) ++ rest := by
        rw [hdata, List.append_assoc, List.singleton_append]
      have hlength : (bytes ++ [byte]).length = bytes.length + 1 := List.length_append
      rw [List.foldlM_cons, flashRomStep]
      dsimp only
      by_cases hfull : (bytes ++ [byte]).length = 16384
      · have htake : bytes ++ [byte] = (data.drop (16384 * n)).take 16384 := by
          rw [hdata', ← hfull, List.take_left]
        have hdrop : data.drop (16384 * (n + 1)) = [] ++ rest := by
          rw [Nat.mul_succ, ← List.drop_drop, hdata', ← hfull, List.drop_left, List.nil_append]
        have hflash := flashRomProc_ok h (by omega) htake
        rw [if_pos hfull, bind_assoc, bind_ok hflash, pure_bind]
        exact ih hdrop (by decide) (by omega) (by rw [List.length_nil]; omega)
      · rw [if_neg hfull, pure_bind]
        exact ih hdata' (by omega) hn (by omega)

end Mlogv32.Mod
