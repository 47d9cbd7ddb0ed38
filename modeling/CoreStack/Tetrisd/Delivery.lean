import CoreStack.Tetrisd.Hits
import CoreStack.Tetrisd.GameOver

/-! # Garbage sent to another room

The hub loses nothing and keeps the order. Garbage that the tick loop takes for a
living victim lands; the lobby loop drops it.
-/
namespace CoreStack.Tetrisd
open Star Tetris

def HubMsg.garbage? : HubMsg → Option HubAttack
  | .garbage a => some a
  | _ => none

def RoomObs.garbage? : RoomObs → Option HubAttack
  | .gotGarbage a _ _ => some a
  | _ => none

def MasterOut.garbageTo (w : ℕ) : MasterOut → Option HubAttack
  | .send fd (.garbage a) => if fd = w then some a else none
  | _ => none

/-- The garbage the master has sent to room `w`, in order. -/
def garbageSent (w : ℕ) (log : List Obs) : List HubAttack :=
  log.filterMap fun
    | .room _ _ => none
    | .master o => o.garbageTo w

/-- The garbage the worker of room `w` has taken from its hub, in order. -/
def garbageGot (w : ℕ) (log : List Obs) : List HubAttack := (roomLog w log).filterMap RoomObs.garbage?

@[simp] theorem garbageSent_append (w : ℕ) (log log' : List Obs) :
    garbageSent w (log ++ log') = garbageSent w log ++ garbageSent w log' := List.filterMap_append

@[simp] theorem garbageSent_room (w v : ℕ) (obs : List RoomObs) : garbageSent w (obs.map (.room v)) = [] := by
  simp [garbageSent,List.filterMap_map]

theorem garbageSent_master (w : ℕ) (outs : List MasterOut) :
    garbageSent w (outs.map .master) = (addressed (sends outs) w).filterMap HubMsg.garbage? := by
  induction outs with
  | nil => rfl
  | cons o outs ih =>
    have hcons : garbageSent w ((o :: outs).map .master) =
        garbageSent w [.master o] ++ garbageSent w (outs.map .master) := garbageSent_append w [_] _
    rw [hcons,ih]
    cases o with
    | send fd m =>
      change _ = (addressed ((fd,m) :: sends outs) w).filterMap HubMsg.garbage?
      rw [addressed_cons]
      by_cases hfd : fd = w
      · cases m <;> simp [garbageSent,MasterOut.garbageTo,HubMsg.garbage?,List.filterMap_cons,hfd]
      · cases m <;> simp [garbageSent,MasterOut.garbageTo,hfd]
    | _ => rfl

@[simp] theorem garbageGot_append (w : ℕ) (log log' : List Obs) :
    garbageGot w (log ++ log') = garbageGot w log ++ garbageGot w log' := by
  simp [garbageGot]

@[simp] theorem garbageGot_master (w : ℕ) (outs : List MasterOut) : garbageGot w (outs.map .master) = [] := by
  simp [garbageGot]

theorem Worker.Traffic.garbage {serial : ℕ} {hub : HubRecv} {wk : Worker} {input : Input} {e : Effect}
    (h : Worker.Traffic serial hub wk input e) :
    e.obs.filterMap RoomObs.garbage? = (taken hub input).filterMap HubMsg.garbage? := by
  have hcalm : input ≠ .recv → taken hub input = [] := by
    intro hi
    unfold taken
    split
    · exact absurd rfl hi
    · rfl
  cases h with
  | quiet ho hs hg =>
    have hobs : e.obs.filterMap RoomObs.garbage? = [] := by
      refine List.filterMap_eq_nil_iff.mpr fun o hm => ?_
      have hc := ho o hm
      cases o <;> first | rfl | cases hc
    rw [hobs]
    unfold taken
    split
    · rename_i m
      cases m with
      | garbage a => exact absurd rfl (hg rfl a)
      | _ => rfl
    · rfl
  | here i p a c hi hpc hp ha hk hz hc hr hne hv ho hs => simp [ho,hcalm hi,RoomObs.garbage?,List.filterMap_cons]
  | away i p a hi hpc hp ha hk hz hne habs ho hs => simp [ho,hcalm hi,RoomObs.garbage?,List.filterMap_cons]
  | dropped i p victimId lines hi hpc hp ho hs => simp [ho,hcalm hi,RoomObs.garbage?,List.filterMap_cons]
  | lobby a hi hh hpc ho hs => simp [ho,hi,hh,taken,RoomObs.garbage?,HubMsg.garbage?]
  | hit a v c hi hh hpc hv hva hid hc hk hr hcv ho hs => simp [ho,hi,hh,taken,RoomObs.garbage?,HubMsg.garbage?,List.filterMap_cons]
  | miss a hi hh hpc ho hs => simp [ho,hi,hh,taken,RoomObs.garbage?,HubMsg.garbage?]
  | feed a hi hh hpc ho hs => simp [ho,hi,hh,taken,RoomObs.garbage?,HubMsg.garbage?,List.filterMap_cons]

/-- What was sent to a room is what it took, followed by what still waits. -/
def System.Fifo (s : System) : Prop :=
  ∀ w, garbageSent w s.log = garbageGot w s.log ++ (s.net w).down.filterMap HubMsg.garbage?

theorem System.Fifo.answer {s : System} (h : s.Fifo) {net : Net HubMsg} {q : MasterReply}
    (hd : ∀ w, (net w).down = (s.net w).down) : (s.answer net q).Fifo := by
  intro w
  simp only [System.answer,garbageSent_append,garbageGot_append,garbageGot_master,List.append_nil,
    Net.deliver_down,List.filterMap_append,garbageSent_master,hd,h w,List.append_assoc]

/-- Garbage that found its victim in the room has landed there. -/
def Lands (obs : List RoomObs) : Prop :=
  ∀ a playing, RoomObs.gotGarbage a playing true ∈ obs →
    ∃ c, RoomObs.queued c ∈ obs ∧ c.serial = a.serial ∧ (a.Sized → c.Fits a)

theorem Lands.append {obs obs' : List RoomObs} (h : Lands obs) (h' : Lands obs') : Lands (obs ++ obs') := by
  intro a playing hm
  rcases List.mem_append.mp hm with hm | hm
  · obtain ⟨c,hc,hf⟩ := h a playing hm
    exact ⟨c,List.mem_append_left _ hc,hf⟩
  · obtain ⟨c,hc,hf⟩ := h' a playing hm
    exact ⟨c,List.mem_append_right _ hc,hf⟩

end CoreStack.Tetrisd
