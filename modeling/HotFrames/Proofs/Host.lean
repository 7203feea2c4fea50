import HotFrames.Host
import HotFrames.Proofs.Sink

/-!
# Actions in a world

An action of the host of a world is a function on worlds, and a sequence of actions hands the world
on from one to the next (`World.bind_eq`).  A part of the world that no action of a sequence changes
is left as it is by the whole of it (`World.Leaves`).
-/

namespace HotFrames

namespace World

/-- Behind an action, the rest goes on with the action's result in the world it left. -/
theorem bind_eq {α β : Type} {x : StateM World α} {f : α → StateM World β} {w later : World} {a : α}
    (h : x w = (a, later)) : (x >>= f) w = f a later := by
  show f (x w).1 (x w).2 = f a later
  rw [h]

/-- Actions that leave a part of the world as it is. -/
def Leaves {α β : Type} (part : World → β) (x : StateM World α) : Prop :=
  ∀ w, part (x w).2 = part w

namespace Leaves

variable {α β γ : Type} {part : World → γ}

theorem pure (a : α) : Leaves part (Pure.pure a : StateM World α) := fun _ => rfl

theorem bind {x : StateM World α} {f : α → StateM World β} (hx : Leaves part x)
    (hf : ∀ a, Leaves part (f a)) : Leaves part (x >>= f) := fun w => by
  show part (f (x w).1 (x w).2).2 = part w
  rw [hf, hx]

end Leaves

theorem leaves_out_writeFile (path : Path) (content : List UInt8) :
    Leaves World.out (host.writeFile path content) := fun w => by
  show (w.writeFile path content).2.out = w.out
  unfold writeFile
  split <;> rfl

/-- A write to the output changes the output only. -/
theorem writeOut_eq (w : World) (bytes : List UInt8) :
    ∃ out, w.out.Takes bytes out ∧
      w.writeOut bytes =
        (if w.out.part bytes = bytes then .ok () else .error w.out.fullFault, { w with out }) := by
  obtain ⟨htakes, hresult⟩ := w.out.writeAll_eq bytes
  exact ⟨(w.out.writeAll bytes).2, htakes, Prod.ext hresult rfl⟩

/-- Flushing the output changes nothing. -/
theorem flushOut_eq (w : World) :
    w.flushOut = (match w.out.flushFault with
      | none => .ok ()
      | some fault => .error fault, w) := by
  unfold flushOut Sink.flush
  cases w.out.flushFault <;> rfl

end World

end HotFrames
