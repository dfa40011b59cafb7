import Famicom.Picture.Memory
import Famicom.Proofs.Action

/-! The cartridges that the parts of the console share. What is done to a cartridge through one slot
is seen through every slot that has its number, and through no other. -/

namespace Famicom.Picture.VideoMemory

open Famicom.Action

variable {α : Type} {m : VideoMemory} {slot other : Option Nat} {c d : Cartridge}
  {x : Action Cartridge.Fault Cartridge α}

/-- The memory with another cartridge in place of the one in a slot. -/
def replace (m : VideoMemory) (slot : Option Nat) (d : Cartridge) : VideoMemory :=
  { m with cartridges := slot.elim m.cartridges (m.cartridges.set · d) }

theorem cartridgeIn_replace (h : m.cartridgeIn slot = some c) (other : Option Nat) :
    (m.replace slot d).cartridgeIn other =
      if other = slot then some d else m.cartridgeIn other := by
  obtain ⟨number, rfl, hc⟩ := Option.bind_eq_some_iff.mp h
  cases other with
  | none => rfl
  | some n =>
    change (m.cartridges.set number d)[n]? = if some n = some number then some d else _
    rw [List.getElem?_set]
    by_cases hn : number = n
    · subst hn
      rw [if_pos rfl, if_pos rfl, if_pos (List.getElem?_eq_some_iff.mp hc).1]
    · rw [if_neg hn, if_neg fun h => hn (Option.some.inj h).symm]
      rfl

theorem cartridgeIn_replace_self (h : m.cartridgeIn slot = some c) :
    (m.replace slot d).cartridgeIn slot = some d := by
  rw [cartridgeIn_replace h, if_pos rfl]

theorem isSome_cartridgeIn_replace (h : m.cartridgeIn slot = some c)
    (hother : (m.cartridgeIn other).isSome) : ((m.replace slot d).cartridgeIn other).isSome := by
  rw [cartridgeIn_replace h]
  split
  · rfl
  · exact hother

theorem replace_self (h : m.cartridgeIn slot = some c) : m.replace slot c = m := by
  obtain ⟨number, rfl, hc⟩ := Option.bind_eq_some_iff.mp h
  have hset : m.cartridges.set number c = m.cartridges := by
    obtain ⟨hlt, rfl⟩ := List.getElem?_eq_some_iff.mp hc
    exact List.set_getElem_self hlt
  unfold replace
  rw [Option.elim_some, hset]

theorem cartridgeIn_add (m : VideoMemory) (c : Cartridge) :
    (m.add c).cartridgeIn (some m.nextNumber) = some c := by
  change (m.cartridges ++ [c])[m.cartridges.length]? = some c
  rw [List.getElem?_append_right (le_refl _), Nat.sub_self]
  rfl

theorem mirroring_insert (m : VideoMemory) (c : Cartridge) :
    (m.insert c).mirroring = c.header.mirroring := by
  change ((m.add c).cartridgeIn (some m.nextNumber)).elim m.mirroring (·.header.mirroring) = _
  rw [cartridgeIn_add]
  rfl

/-! Operations. -/

theorem onNumber_of_none {n : Nat} {cs : List Cartridge} (h : cs[n]? = none) :
    onNumber x n cs = ⟨.error .noCartridge, cs, []⟩ := by
  induction cs generalizing n with
  | nil => rw [onNumber]
  | cons d cs ih =>
    cases n with
    | zero => cases h
    | succ n => rw [onNumber, ih h]

theorem onNumber_of_some {n : Nat} {cs : List Cartridge} (h : cs[n]? = some c) :
    onNumber x n cs =
      ⟨(x c).answer.mapError .cartridge, cs.set n (x c).state, (x c).events⟩ := by
  induction cs generalizing n with
  | nil => cases h
  | cons d cs ih =>
    cases n with
    | zero =>
      obtain rfl := Option.some.inj h
      rfl
    | succ n =>
      rw [onNumber, ih h]
      rfl

theorem onSlot_of_empty (h : m.cartridgeIn slot = none) :
    onSlot slot x m = ⟨.error .noCartridge, m, []⟩ := by
  cases slot with
  | none => rfl
  | some number =>
    unfold onSlot
    dsimp only
    rw [onNumber_of_none h]

theorem onSlot_of_full (h : m.cartridgeIn slot = some c) : onSlot slot x m =
    ⟨(x c).answer.mapError .cartridge, m.replace slot (x c).state, (x c).events⟩ := by
  obtain ⟨number, rfl, hc⟩ := Option.bind_eq_some_iff.mp h
  unfold onSlot
  dsimp only
  rw [onNumber_of_some hc]
  rfl

/-- What an operation through a slot leaves behind, whatever is in the slot. -/
theorem onSlot_keeps {J : VideoMemory → Prop} {E : Bus.Fault → Prop}
    (hempty : m.cartridgeIn slot = none → J m ∧ E .noCartridge)
    (hfull : ∀ c, m.cartridgeIn slot = some c → J (m.replace slot (x c).state) ∧
      ∀ e, (x c).answer = .error e → E (.cartridge e)) :
    J (onSlot slot x m).state ∧ ∀ e, (onSlot slot x m).answer = .error e → E e := by
  cases h : m.cartridgeIn slot with
  | none =>
    rw [onSlot_of_empty h]
    exact ⟨(hempty h).1, fun e he => by cases he; exact (hempty h).2⟩
  | some c =>
    obtain ⟨hstate, hfault⟩ := hfull c h
    rw [onSlot_of_full h]
    refine ⟨hstate, ?_⟩
    intro e he
    rcases hanswer : (x c).answer with f | a
    · simp only [hanswer] at he
      cases he
      exact hfault f hanswer
    · simp only [hanswer] at he
      cases he

theorem onCartridge_eq (x : Action Cartridge.Fault Cartridge α) (m : VideoMemory) :
    onCartridge x m = onSlot m.slot x m := by
  unfold onCartridge
  rw [view_bind]

end Famicom.Picture.VideoMemory
