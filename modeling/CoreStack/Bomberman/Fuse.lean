import CoreStack.Bomberman.Burst

/-! # Which bombs explode

`tick_bombs` copies the last bomb over the one that has run out and then explodes
what its pointer now shows. So each removal explodes the bomb that was last in the
queue at that time, whichever bomb ran out.
-/
namespace CoreStack.Bomberman
open Utils

def BombInfo.expires [Arithmetic] (deltaTime : ℚ) (b : BombInfo) : Bool := decide (fl (b.timer - deltaTime) ≤ 0)

/-! ## Explosions leave the bombs alone -/

structure Grows (r t : World × ExplosionInfo) : Prop where
  bombs : t.1.bombs = r.1.bombs
  explodes : t.1.explodes = r.1.explodes
  blast : t.2.blast = r.2.blast

theorem burst_grows (w : World) (bomb : BombInfo) :
    Grows (w,⟨bomb.position,fun _ => 0,[],explodeLifetime,bomb.spread⟩) (burst w bomb) := by
  rw [burst_eq]
  obtain ⟨hbombs,hexplodes⟩ := blown_queues w (crossTiles w bomb.blast)
  exact ⟨hbombs,hexplodes,rfl⟩

theorem triggerExplosion_spec {w : World} (bomb : BombInfo) (h : w.explodes.rear < 500) :
    (triggerExplosion w bomb).bombs = w.bombs ∧
    ∃ e, (triggerExplosion w bomb).explodes.items = w.explodes.items ++ [e] ∧ e.blast = bomb.blast := by
  have hg := burst_grows w bomb
  rw [triggerExplosion_eq]
  refine ⟨hg.bombs,(burst w bomb).2,?_,hg.blast⟩
  rw [hg.explodes,Queue.enqueue_items h]

/-! ## The loop over the queue -/

/-- The bombs left and the bombs exploded, for the `n` bombs from the cell on. -/
def sweep [Arithmetic] (deltaTime : ℚ) : ℕ → List BombInfo → List BombInfo × List BombInfo
  | 0, _ => ([],[])
  | _ + 1, [] => ([],[])
  | n + 1, b :: rest =>
    if b.expires deltaTime then
      match rest.getLast? with
      | none => ([],[b.burn deltaTime])
      | some last =>
        let r := sweep deltaTime n (last :: rest.dropLast)
        (r.1,last :: r.2)
    else
      let r := sweep deltaTime n rest
      (b.burn deltaTime :: r.1,r.2)

theorem sweep_keep [Arithmetic] {deltaTime : ℚ} {b : BombInfo} (h : b.expires deltaTime = false) (n : ℕ) (rest : List BombInfo) :
    sweep deltaTime (n + 1) (b :: rest) =
      (b.burn deltaTime :: (sweep deltaTime n rest).1,(sweep deltaTime n rest).2) := by
  simp [sweep,h]

theorem sweep_single [Arithmetic] {deltaTime : ℚ} {b : BombInfo} (h : b.expires deltaTime = true) (n : ℕ) :
    sweep deltaTime (n + 1) [b] = ([],[b.burn deltaTime]) := by
  simp [sweep,h]

theorem sweep_swap [Arithmetic] {deltaTime : ℚ} {b : BombInfo} (h : b.expires deltaTime = true) (n : ℕ) (mid : List BombInfo)
    (last : BombInfo) : sweep deltaTime (n + 1) (b :: (mid ++ [last])) =
      ((sweep deltaTime n (last :: mid)).1,last :: (sweep deltaTime n (last :: mid)).2) := by
  simp [sweep,h]

/-- What the loop does to the two queues, the cells before `pre` being done with. -/
structure Sweeps [Arithmetic] (deltaTime : ℚ) (pre rest : List BombInfo) (w t : World) : Prop where
  bombs : t.bombs.items = pre ++ (sweep deltaTime rest.length rest).1
  head : t.bombs.head = w.bombs.head
  explodes : ∃ new, t.explodes.items = w.explodes.items ++ new ∧
    new.map (·.blast) = (sweep deltaTime rest.length rest).2.map (·.blast)

/-- A bomb that runs out: what the pointer shows after the copy explodes. -/
theorem tickBombsLoop_expired [Arithmetic] {deltaTime : ℚ} {w : World} {i : ℕ} {b pointee : BombInfo}
    (hcell : w.bombs.items[i]? = some b) (hexp : b.expires deltaTime = true)
    (hp : ((w.bombs.write i (b.burn deltaTime)).overwrite i).items[i]? = some pointee) (n : ℕ) :
    tickBombsLoop deltaTime (n + 1) i w = tickBombsLoop deltaTime n i (triggerExplosion
      { w.clear b.position with bombs := ((w.bombs.write i (b.burn deltaTime)).overwrite i).shrink } pointee) := by
  have htimer : (b.burn deltaTime).timer ≤ 0 := of_decide_eq_true hexp
  have hget : (((w.bombs.write i (b.burn deltaTime)).overwrite i).items[i]?).getD (b.burn deltaTime) = pointee := by
    rw [hp]
    rfl
  rw [tickBombsLoop,hcell]
  dsimp only
  rw [if_pos htimer]
  exact congrArg (fun x => tickBombsLoop deltaTime n i (triggerExplosion _ x)) hget

theorem tickBombsLoop_kept [Arithmetic] {deltaTime : ℚ} {w : World} {i : ℕ} {b : BombInfo}
    (hcell : w.bombs.items[i]? = some b) (hexp : b.expires deltaTime = false) (n : ℕ) :
    tickBombsLoop deltaTime (n + 1) i w =
      tickBombsLoop deltaTime n (i + 1) { w with bombs := w.bombs.write i (b.burn deltaTime) } := by
  have htimer : ¬(b.burn deltaTime).timer ≤ 0 := of_decide_eq_false hexp
  rw [tickBombsLoop,hcell]
  dsimp only
  rw [if_neg htimer]

/-- What the loop finds after a bomb ran out: the cells from `pre` on and the bomb to explode. -/
structure Fires [Arithmetic] (deltaTime : ℚ) (pre : List BombInfo) (b : BombInfo) (rest rest' : List BombInfo) (w t : World)
    (pointee : BombInfo) : Prop where
  bombs : t.bombs.items = pre ++ rest'
  head : t.bombs.head = w.bombs.head
  explodes : t.explodes = w.explodes
  length : rest'.length = rest.length
  left : (sweep deltaTime (rest.length + 1) (b :: rest)).1 = (sweep deltaTime rest.length rest').1
  blamed : (sweep deltaTime (rest.length + 1) (b :: rest)).2.map (·.blast) =
    pointee.blast :: (sweep deltaTime rest.length rest').2.map (·.blast)

/-- The last bomb of the queue explodes alone; any other one is replaced by the last bomb first. -/
theorem tickBombsLoop_fires [Arithmetic] {deltaTime : ℚ} {w : World} {pre rest : List BombInfo} {b : BombInfo}
    (hitems : w.bombs.items = pre ++ b :: rest) (hhead : w.bombs.head ≤ pre.length) (hexp : b.expires deltaTime = true) :
    ∃ rest' t pointee, (∀ n, tickBombsLoop deltaTime (n + 1) pre.length w =
      tickBombsLoop deltaTime n pre.length (triggerExplosion t pointee)) ∧
      Fires deltaTime pre b rest rest' w t pointee := by
  have hcell : w.bombs.items[pre.length]? = some b := by simp [hitems]
  have hwrite : (w.bombs.write pre.length (b.burn deltaTime)).items = pre ++ b.burn deltaTime :: rest := by
    simp [hitems]
  rcases List.eq_nil_or_concat rest with rfl | ⟨mid,last,rfl⟩
  · obtain ⟨hp,hq⟩ := Queue.overwrite_last hwrite hhead
    refine ⟨[],_,_,tickBombsLoop_expired hcell hexp hp,?_,by simp,rfl,rfl,?_,?_⟩
    · rw [List.append_nil]
      exact hq
    · rw [sweep_single hexp]
      rfl
    · rw [sweep_single hexp]
      rfl
  · rw [List.concat_eq_append] at *
    obtain ⟨hp,hq⟩ := Queue.overwrite_mid hwrite hhead
    refine ⟨last :: mid,_,_,tickBombsLoop_expired hcell hexp hp,hq,by simp,rfl,by simp,?_,?_⟩
    · rw [sweep_swap hexp]
    · rw [sweep_swap hexp,List.map_cons]

/-- One explosion is added to what the rest of the loop does. -/
theorem Fires.sweeps [Arithmetic] {deltaTime : ℚ} {pre rest rest' : List BombInfo} {b pointee : BombInfo} {w t u : World}
    (h : Fires deltaTime pre b rest rest' w t pointee) (hroom : t.explodes.rear < 500)
    (hu : Sweeps deltaTime pre rest' (triggerExplosion t pointee) u) : Sweeps deltaTime pre (b :: rest) w u := by
  obtain ⟨hbombs,e,he,hblast⟩ := triggerExplosion_spec pointee hroom
  obtain ⟨hb,hh,new,hnew,hmap⟩ := hu
  refine ⟨?_,by rw [hh,hbombs,h.head],e :: new,?_,?_⟩
  · rw [hb,h.length,List.length_cons,h.left]
  · rw [hnew,he,h.explodes,List.append_assoc]
    rfl
  · rw [List.map_cons,hmap,h.length,List.length_cons,h.blamed,hblast]

theorem tickBombsLoop_sweeps [Arithmetic] (deltaTime : ℚ) (n : ℕ) (w : World) (pre rest : List BombInfo)
    (hn : rest.length = n) (hitems : w.bombs.items = pre ++ rest) (hhead : w.bombs.head ≤ pre.length)
    (hroom : w.explodes.rear + (sweep deltaTime n rest).2.length ≤ 500) :
    Sweeps deltaTime pre rest w (tickBombsLoop deltaTime n pre.length w) := by
  induction n generalizing w pre rest with
  | zero =>
    obtain rfl := List.length_eq_zero_iff.mp hn
    exact ⟨hitems,rfl,[],(List.append_nil _).symm,rfl⟩
  | succ n ih =>
    match rest, hn with
    | b :: rest, hn =>
      have hlen : rest.length = n := Nat.succ.inj hn
      cases hexp : b.expires deltaTime with
      | false =>
        have hcell : w.bombs.items[pre.length]? = some b := by simp [hitems]
        rw [tickBombsLoop_kept hcell hexp]
        rw [sweep_keep hexp] at hroom
        have hpre : pre.length + 1 = (pre ++ [b.burn deltaTime]).length := by simp
        rw [hpre]
        obtain ⟨hb,hh,new,hnew,hblast⟩ := ih { w with bombs := w.bombs.write pre.length (b.burn deltaTime) }
          (pre ++ [b.burn deltaTime]) rest hlen (by simp [hitems]) (by simpa using Nat.le_succ_of_le hhead) hroom
        have hkeep := sweep_keep hexp rest.length rest
        refine ⟨?_,hh,new,hnew,?_⟩
        · rw [hb,List.length_cons,hkeep,List.append_assoc]
          rfl
        · rw [hblast,List.length_cons,hkeep]
      | true =>
        obtain ⟨rest',t,pointee,hloop,hf⟩ := tickBombsLoop_fires hitems hhead hexp
        rw [hloop]
        have hcount := congrArg List.length hf.blamed
        simp only [List.length_map,List.length_cons,hlen] at hcount
        have hfree : t.explodes.rear < 500 := by
          rw [hf.explodes]
          omega
        obtain ⟨hbombs,e,he,-⟩ := triggerExplosion_spec pointee hfree
        have hrear : (triggerExplosion t pointee).explodes.rear = w.explodes.rear + 1 := by
          unfold Queue.rear
          rw [he,hf.explodes]
          simp
        refine hf.sweeps hfree (ih _ pre rest' (hf.length.trans hlen) (by rw [hbombs,hf.bombs]) ?_ ?_)
        · rw [hbombs,hf.head]
          exact hhead
        · rw [hrear]
          omega

/-! ## Which bombs are left and which are blamed -/

theorem sweep_left [Arithmetic] (deltaTime : ℚ) (n : ℕ) (bombs : List BombInfo) (hn : bombs.length = n) :
    (sweep deltaTime n bombs).1.Perm
      ((bombs.filter fun b => !b.expires deltaTime).map (·.burn deltaTime)) := by
  induction n generalizing bombs with
  | zero =>
    obtain rfl := List.length_eq_zero_iff.mp hn
    exact .refl _
  | succ n ih =>
    match bombs, hn with
    | b :: rest, hn =>
      have hlen : rest.length = n := Nat.succ.inj hn
      cases hexp : b.expires deltaTime with
      | false =>
        rw [sweep_keep hexp,List.filter_cons_of_pos (by simp [hexp]),List.map_cons]
        exact (ih rest hlen).cons _
      | true =>
        rw [List.filter_cons_of_neg (by simp [hexp])]
        rcases List.eq_nil_or_concat rest with rfl | ⟨mid,last,rfl⟩
        · rw [sweep_single hexp]
          exact .refl _
        · rw [List.concat_eq_append] at hlen ⊢
          rw [sweep_swap hexp]
          refine (ih (last :: mid) (by simpa using hlen)).trans ?_
          exact ((List.perm_append_singleton last mid).symm.filter _).map _

/-- The first of two bombs that both run out is not seen any more when they come last. -/
def standIn [Arithmetic] (deltaTime : ℚ) : List BombInfo → List BombInfo
  | a :: b :: rest => if a.expires deltaTime && b.expires deltaTime then b :: b :: rest else a :: b :: rest
  | bombs => bombs

/-- As many bombs from the end of the queue as run out. -/
def culprits [Arithmetic] (deltaTime : ℚ) (bombs : List BombInfo) : List BombInfo :=
  standIn deltaTime (bombs.drop (bombs.length - bombs.countP (·.expires deltaTime)))

theorem standIn_length [Arithmetic] (deltaTime : ℚ) (bombs : List BombInfo) :
    (standIn deltaTime bombs).length = bombs.length := by
  unfold standIn
  split
  · split <;> rfl
  · rfl

theorem culprits_length [Arithmetic] (deltaTime : ℚ) (bombs : List BombInfo) :
    (culprits deltaTime bombs).length = bombs.countP (·.expires deltaTime) := by
  have hle := List.countP_le_length (p := (·.expires deltaTime)) (l := bombs)
  unfold culprits
  rw [standIn_length,List.length_drop]
  omega

theorem culprits_keep [Arithmetic] {deltaTime : ℚ} {b : BombInfo} (h : b.expires deltaTime = false) (rest : List BombInfo) :
    culprits deltaTime (b :: rest) = culprits deltaTime rest := by
  have hle := List.countP_le_length (p := (·.expires deltaTime)) (l := rest)
  unfold culprits
  rw [List.countP_cons_of_neg (by simp [h]),List.length_cons,Nat.succ_sub hle,List.drop_succ_cons]

/-- A bomb added at the end is blamed as well, unless every bomb from there on runs out. -/
theorem standIn_concat [Arithmetic] {deltaTime : ℚ} {tail : List BombInfo} {last : BombInfo}
    (h : (tail ++ [last]).countP (·.expires deltaTime) ≤ tail.length) :
    (last :: standIn deltaTime tail).Perm (standIn deltaTime (tail ++ [last])) := by
  match tail with
  | [] => exact .refl _
  | [y] =>
    have hnot : (y.expires deltaTime && last.expires deltaTime) = false := by
      cases hy : y.expires deltaTime <;> cases hl : last.expires deltaTime <;> simp [hy,hl] at h ⊢
    simp only [standIn,List.cons_append,List.nil_append,hnot,Bool.false_eq_true,↓reduceIte]
    exact .swap y last []
  | x :: y :: rest =>
    simp only [standIn,List.cons_append]
    split
    · exact (List.perm_append_singleton last (y :: y :: rest)).symm
    · exact (List.perm_append_singleton last (x :: y :: rest)).symm

/-- A removal adds the last bomb to the culprits of the queue it leaves. -/
theorem culprits_swap [Arithmetic] {deltaTime : ℚ} {b : BombInfo} (h : b.expires deltaTime = true) (mid : List BombInfo)
    (last : BombInfo) :
    (last :: culprits deltaTime (last :: mid)).Perm (culprits deltaTime (b :: (mid ++ [last]))) := by
  have hcount : (mid ++ [last]).countP (·.expires deltaTime) = (last :: mid).countP (·.expires deltaTime) :=
    (List.perm_append_singleton last mid).countP_eq _
  have hcons : (b :: (mid ++ [last])).countP (·.expires deltaTime) =
      (last :: mid).countP (·.expires deltaTime) + 1 := by
    rw [List.countP_cons_of_pos (by simpa using h),hcount]
  have hle := List.countP_le_length (p := (·.expires deltaTime)) (l := last :: mid)
  unfold culprits
  rw [hcons]
  simp only [List.length_cons,List.length_append,List.length_nil] at hle ⊢
  generalize hc : (last :: mid).countP (·.expires deltaTime) = c at hle hcount ⊢
  rw [show mid.length + 1 + 1 - (c + 1) = mid.length + 1 - c by omega]
  cases hd : mid.length + 1 - c with
  | zero =>
    -- every bomb runs out
    have hall : ∀ x ∈ last :: mid, x.expires deltaTime = true := by
      refine List.countP_eq_length.mp ?_
      rw [hc,List.length_cons]
      omega
    cases mid with
    | nil => simp [standIn,h,hall last]
    | cons y mid =>
      have hy := hall y (by simp)
      have hl := hall last (by simp)
      simp only [List.drop_zero,List.cons_append,standIn,h,hy,hl,Bool.and_self,↓reduceIte]
      exact (List.perm_append_singleton last (y :: y :: mid)).symm
  | succ e =>
    rw [List.drop_succ_cons,List.drop_succ_cons,List.drop_append_of_le_length (by omega)]
    refine standIn_concat ?_
    have htail : (mid.drop e).length = c := by
      rw [List.length_drop]
      omega
    rw [htail,← hcount,List.countP_append,List.countP_append]
    exact Nat.add_le_add_right ((List.drop_sublist e mid).countP_le (p := (·.expires deltaTime))) _

theorem sweep_blamed [Arithmetic] (deltaTime : ℚ) (n : ℕ) (bombs : List BombInfo) (hn : bombs.length = n) :
    ((sweep deltaTime n bombs).2.map (·.blast)).Perm ((culprits deltaTime bombs).map (·.blast)) := by
  induction n generalizing bombs with
  | zero =>
    obtain rfl := List.length_eq_zero_iff.mp hn
    exact .refl _
  | succ n ih =>
    match bombs, hn with
    | b :: rest, hn =>
      have hlen : rest.length = n := Nat.succ.inj hn
      cases hexp : b.expires deltaTime with
      | false =>
        rw [sweep_keep hexp,culprits_keep hexp]
        exact ih rest hlen
      | true =>
        rcases List.eq_nil_or_concat rest with rfl | ⟨mid,last,rfl⟩
        · rw [sweep_single hexp]
          simp [culprits,standIn,hexp,BombInfo.blast,BombInfo.burn]
        · rw [List.concat_eq_append] at hlen ⊢
          rw [sweep_swap hexp,List.map_cons]
          refine ((ih (last :: mid) (by simpa using hlen)).cons _).trans ?_
          exact (culprits_swap hexp mid last).map _

/-! ## The rest of the tick leaves the bombs alone -/

def World.SameQueues (w t : World) : Prop := t.bombs = w.bombs ∧ t.explodes = w.explodes

theorem World.SameQueues.trans {w t u : World} (h : w.SameQueues t) (h' : t.SameQueues u) : w.SameQueues u :=
  ⟨h'.1.trans h.1,h'.2.trans h.2⟩

theorem pickUp_sameQueues (tiles : List (ℤ × ℤ)) (r : Pickup) :
    r.world.SameQueues (tiles.foldl pickUp r).world := by
  induction tiles generalizing r with
  | nil => exact ⟨rfl,rfl⟩
  | cons t tiles ih =>
    rw [List.foldl_cons]
    refine World.SameQueues.trans ?_ (ih (pickUp r t))
    unfold pickUp
    split
    · exact ⟨rfl,rfl⟩
    · dsimp only
      split <;> exact ⟨rfl,rfl⟩

theorem advance_sameQueues [Arithmetic] (normalize : Vector2 → Vector2) (deltaTime : ℚ) (w : World) (p : BombPlayer) :
    w.SameQueues (advance normalize deltaTime w p).1 := by
  unfold advance
  split
  · exact ⟨rfl,rfl⟩
  · exact pickUp_sameQueues _ ⟨w,_,_⟩

theorem advanceAll_sameQueues [Arithmetic] (normalize : Vector2 → Vector2) (deltaTime : ℚ) (w : World)
    (players : List BombPlayer) : w.SameQueues (advanceAll normalize deltaTime w players).1 := by
  induction players generalizing w with
  | nil => exact ⟨rfl,rfl⟩
  | cons p players ih => exact (advance_sameQueues normalize deltaTime w p).trans (ih _)

theorem spawnPending_bombs (positions : List Vector2) (w : World) :
    (positions.foldl spawnPending w).bombs = w.bombs := by
  induction positions generalizing w with
  | nil => rfl
  | cons v positions ih =>
    rw [List.foldl_cons,ih]
    unfold spawnPending
    dsimp only
    split <;> rfl

theorem clear_bombs (positions : List Vector2) (w : World) : (positions.foldl World.clear w).bombs = w.bombs := by
  induction positions generalizing w with
  | nil => rfl
  | cons v positions ih =>
    rw [List.foldl_cons,ih]
    rfl

theorem extinguish_bombs (w : World) (e : ExplosionInfo) : (extinguish w e).bombs = w.bombs := by
  unfold extinguish spawnPendingPowerups
  rw [spawnPending_bombs,clear_bombs]
  rfl

theorem tickExplosionsLoop_bombs [Arithmetic] (deltaTime : ℚ) (n i : ℕ) (w : World) :
    (tickExplosionsLoop deltaTime n i w).bombs = w.bombs := by
  induction n generalizing i w with
  | zero => rfl
  | succ n ih =>
    unfold tickExplosionsLoop
    split
    · rfl
    · dsimp only
      split
      · rw [ih]
        exact extinguish_bombs _ _
      · rw [ih]

theorem tickExplosions_bombs [Arithmetic] (w : World) (deltaTime : ℚ) : (tickExplosions w deltaTime).bombs = w.bombs := by
  unfold tickExplosions
  split
  · rfl
  · exact tickExplosionsLoop_bombs deltaTime _ _ w

/-! ## The tick -/

theorem tickBombs_sweeps [Arithmetic] (w : World) (deltaTime : ℚ)
    (hroom : w.explodes.rear + w.bombs.queued.countP (·.expires deltaTime) ≤ 500) :
    Sweeps deltaTime (w.bombs.items.take w.bombs.head) w.bombs.queued w (tickBombs w deltaTime) := by
  have hsplit := w.bombs.take_head_append.symm
  have hpre := w.bombs.take_head_length
  have hlen : w.bombs.queued.length = w.bombs.rear - w.bombs.head := List.length_drop
  unfold tickBombs
  split
  · rename_i he
    have hnil : w.bombs.queued = [] := by
      refine List.length_eq_zero_iff.mp ?_
      have := beq_iff_eq.mp he
      omega
    rw [hnil]
    rw [hnil] at hsplit
    exact ⟨hsplit,rfl,[],(List.append_nil _).symm,rfl⟩
  · have hcount : (sweep deltaTime w.bombs.queued.length w.bombs.queued).2.length =
        w.bombs.queued.countP (·.expires deltaTime) := by
      have hperm := (sweep_blamed deltaTime _ w.bombs.queued rfl).length_eq
      rw [List.length_map,List.length_map,culprits_length] at hperm
      exact hperm
    have hs := tickBombsLoop_sweeps deltaTime (w.bombs.rear - w.bombs.head) w (w.bombs.items.take w.bombs.head)
      w.bombs.queued hlen hsplit (by rw [hpre]) (by rw [← hlen,hcount]; exact hroom)
    rwa [hpre] at hs

/-- The tick explodes the bombs that run out, where they are and as far as they
reach, and keeps the others with their timers reduced. -/
structure Detonates [Arithmetic] (normalize : Vector2 → Vector2) (s : Bombd) (deltaTime : ℚ) : Prop where
  enqueued : ((tickBombs (applyMovementAndPickups normalize deltaTime s).world deltaTime).explodes.items.map
    (·.blast)).Perm (s.world.explodes.items.map (·.blast) ++
      (s.world.bombs.queued.filter (·.expires deltaTime)).map (·.blast))
  reported : ((tickSession normalize s deltaTime).2.map (·.blast)).Perm
    ((s.world.bombs.queued.filter (·.expires deltaTime)).map (·.blast))
  remaining : (tickSession normalize s deltaTime).1.world.bombs.queued.Perm
    ((s.world.bombs.queued.filter fun b => !b.expires deltaTime).map (·.burn deltaTime))

theorem culprits_append [Arithmetic] {deltaTime : ℚ} {kept : List BombInfo} (h : ∀ b ∈ kept, b.expires deltaTime = false)
    (rest : List BombInfo) : culprits deltaTime (kept ++ rest) = culprits deltaTime rest := by
  induction kept with
  | nil => rfl
  | cons b kept ih =>
    rw [List.cons_append,culprits_keep (h b List.mem_cons_self)]
    exact ih fun x hx => h x (List.mem_cons_of_mem _ hx)

theorem culprits_of_kept [Arithmetic] {deltaTime : ℚ} {bombs : List BombInfo}
    (h : ∀ b ∈ bombs.dropLast, b.expires deltaTime = false) :
    culprits deltaTime bombs = bombs.filter (·.expires deltaTime) := by
  rcases List.eq_nil_or_concat bombs with rfl | ⟨kept,last,rfl⟩
  · rfl
  · rw [List.concat_eq_append] at h ⊢
    rw [List.dropLast_concat] at h
    have hnone : kept.filter (·.expires deltaTime) = [] :=
      List.filter_eq_nil_iff.mpr fun b hb => by simp [h b hb]
    rw [culprits_append h,List.filter_append,hnone,List.nil_append]
    cases hl : last.expires deltaTime <;> simp [culprits,standIn,hl]

theorem standIn_subset [Arithmetic] (deltaTime : ℚ) (bombs : List BombInfo) : standIn deltaTime bombs ⊆ bombs := by
  unfold standIn
  split
  · split <;> simp
  · exact List.Subset.refl _

/-- Bombs that differ in place or reach are told apart by their blasts: then only the
last bomb of the queue explodes as it should. -/
theorem culprits_perm_iff [Arithmetic] {deltaTime : ℚ} {bombs : List BombInfo} (hn : (bombs.map (·.blast)).Nodup) :
    ((culprits deltaTime bombs).map (·.blast)).Perm ((bombs.filter (·.expires deltaTime)).map (·.blast)) ↔
    ∀ b ∈ bombs.dropLast, b.expires deltaTime = false := by
  refine ⟨fun hperm b hb => ?_,fun h => by rw [culprits_of_kept h]⟩
  have hinj : ∀ x ∈ bombs, ∀ y ∈ bombs, x.blast = y.blast → x = y :=
    fun x hx y hy he => List.inj_on_of_nodup_map hn hx hy he
  have htail : bombs.drop (bombs.length - bombs.countP (·.expires deltaTime)) ⊆ bombs := List.drop_subset _ _
  -- whatever is blamed has run out itself
  have hexp : ∀ x ∈ culprits deltaTime bombs, x.expires deltaTime = true := by
    intro x hx
    obtain ⟨y,hy,he⟩ := List.mem_map.mp (hperm.subset (List.mem_map_of_mem hx))
    obtain ⟨hyb,hye⟩ := List.mem_filter.mp hy
    rw [hinj x (htail (standIn_subset _ _ hx)) y hyb he.symm]
    exact hye
  have hnodup : ((culprits deltaTime bombs).map (·.blast)).Nodup :=
    hperm.nodup_iff.mpr ((List.filter_sublist.map _).nodup hn)
  have hlen := culprits_length deltaTime bombs
  by_contra hne
  have hbx : b.expires deltaTime = true := Bool.not_eq_false _ ▸ hne
  have hbm := List.dropLast_subset _ hb
  have hpos : 0 < bombs.countP (·.expires deltaTime) := List.countP_pos_iff.mpr ⟨b,hbm,hbx⟩
  have hdrop : bombs.drop (bombs.length - bombs.countP (·.expires deltaTime)) <:+ bombs := List.drop_suffix _ _
  unfold culprits at hexp hnodup hperm hlen
  generalize bombs.drop (bombs.length - bombs.countP (·.expires deltaTime)) = tail at *
  match tail with
  | [] =>
    simp only [standIn,List.length_nil] at hlen
    omega
  | [z] =>
    obtain ⟨front,rfl⟩ := hdrop
    have hz := hperm.symm.subset (List.mem_map_of_mem (List.mem_filter.mpr ⟨hbm,hbx⟩))
    have hbz : b = z := hinj b hbm z (by simp) (by simpa [standIn] using hz)
    rw [List.dropLast_concat] at hb
    have hdis := (List.nodup_append.mp (List.Nodup.of_map _ hn)).2.2 b hb z (List.mem_singleton.mpr rfl)
    exact hdis hbz
  | a :: c :: rest =>
    cases hac : (a.expires deltaTime && c.expires deltaTime) with
    | true => simp [standIn,hac] at hnodup
    | false =>
      simp only [standIn,hac,Bool.false_eq_true,↓reduceIte] at hexp
      rw [hexp a (by simp),hexp c (by simp)] at hac
      cases hac

/-- The players' moves touch no queue, so the whole tick sweeps the bombs it finds. -/
theorem tickSession_sweeps [Arithmetic] (normalize : Vector2 → Vector2) (s : Bombd) (deltaTime : ℚ)
    (hroom : s.world.explodes.rear + s.world.bombs.queued.countP (·.expires deltaTime) ≤ 500) :
    (tickSession normalize s deltaTime).1.world.bombs.queued =
      (sweep deltaTime s.world.bombs.queued.length s.world.bombs.queued).1 ∧
    (tickBombs (applyMovementAndPickups normalize deltaTime s).world deltaTime).explodes.items =
      s.world.explodes.items ++ (tickSession normalize s deltaTime).2 ∧
    (tickSession normalize s deltaTime).2.map (·.blast) =
      (sweep deltaTime s.world.bombs.queued.length s.world.bombs.queued).2.map (·.blast) := by
  obtain ⟨hbombs,hexplodes⟩ := advanceAll_sameQueues normalize deltaTime s.world s.session.players
  change (applyMovementAndPickups normalize deltaTime s).world.bombs = _ at hbombs
  change (applyMovementAndPickups normalize deltaTime s).world.explodes = _ at hexplodes
  have hs := tickBombs_sweeps (applyMovementAndPickups normalize deltaTime s).world deltaTime
    (by rw [hbombs,hexplodes]; exact hroom)
  obtain ⟨hb,hh,new,hnew,hblast⟩ := hs
  rw [hbombs] at hb hh hblast
  rw [hexplodes] at hnew
  have hreported : (tickSession normalize s deltaTime).2 = new := by
    simp only [tickSession,hnew,hexplodes]
    exact List.drop_left
  have hfinal : (tickSession normalize s deltaTime).1.world.bombs =
      (tickBombs (applyMovementAndPickups normalize deltaTime s).world deltaTime).bombs :=
    tickExplosions_bombs _ deltaTime
  rw [hreported,hfinal]
  exact ⟨Queue.queued_eq hb (hh.trans s.world.bombs.take_head_length.symm),hnew,hblast⟩

/-- The tick is right exactly when the bombs that run out are told by the same
blasts as the culprits; with all blasts different, when at most the last bomb runs out. -/
theorem detonates_iff [Arithmetic] (normalize : Vector2 → Vector2) (s : Bombd) (deltaTime : ℚ)
    (hroom : s.world.explodes.rear + s.world.bombs.queued.countP (·.expires deltaTime) ≤ 500) :
    (Detonates normalize s deltaTime ↔ ((culprits deltaTime s.world.bombs.queued).map (·.blast)).Perm
      ((s.world.bombs.queued.filter (·.expires deltaTime)).map (·.blast))) ∧
    ((s.world.bombs.queued.map (·.blast)).Nodup → (Detonates normalize s deltaTime ↔
      ∀ b ∈ s.world.bombs.queued.dropLast, b.expires deltaTime = false)) := by
  obtain ⟨hremaining,henqueued,hblast⟩ := tickSession_sweeps normalize s deltaTime hroom
  have hblamed := sweep_blamed deltaTime _ s.world.bombs.queued rfl
  rw [← hblast] at hblamed
  have hiff : Detonates normalize s deltaTime ↔ ((culprits deltaTime s.world.bombs.queued).map (·.blast)).Perm
      ((s.world.bombs.queued.filter (·.expires deltaTime)).map (·.blast)) := by
    constructor
    · intro h
      exact hblamed.symm.trans h.reported
    · intro h
      have hreported := hblamed.trans h
      refine ⟨?_,hreported,?_⟩
      · rw [henqueued,List.map_append]
        exact hreported.append_left _
      · rw [hremaining]
        exact sweep_left deltaTime _ _ rfl
  exact ⟨hiff,fun hn => hiff.trans (culprits_perm_iff hn)⟩

attribute [local instance] Arithmetic.exact

/-- A lone player's bomb: one fuse, half a second before its end. -/
def loneBomb : List BombInput := [.place 1,.tick (1 / 2)]

theorem detonates_iff_loneBomb :
    ∃ s, Execution.run (Bombd.step id) (initSession (fun _ => 0) [1]) loneBomb = some s ∧
      s.world.bombs.queued.map (·.blast) = [(⟨1,1⟩,1)] ∧ Detonates id s (1 / 2) := by
  obtain ⟨s,hs,ht⟩ := Execution.exists_of_run_any (Bombd.step id) (initSession (fun _ => 0) [1]) loneBomb
    (fun s => decide (s.world.bombs.queued = [⟨⟨1,1⟩,1,1 / 2⟩]) && decide (s.world.explodes.rear = 0))
    (by decide +kernel)
  simp only [Bool.and_eq_true,decide_eq_true_eq] at ht
  obtain ⟨hq,he⟩ := ht
  have hiff := (detonates_iff id s (1 / 2) (by rw [hq,he]; decide +kernel)).2 (by rw [hq]; simp)
  exact ⟨s,hs,by rw [hq]; rfl,hiff.mpr (by rw [hq]; simp)⟩

/-- Two players, half a second apart: the first fuse ends, the second bomb explodes. -/
def twoBombs : List BombInput := [.place 1,.tick (1 / 2),.place 2]

theorem wrong_bomb_explodes :
    ¬ ∀ (normalize : Vector2 → Vector2) (draws : ℕ → ℕ) (clientIds : List ℕ) (inputs : List BombInput) (s : Bombd),
      Execution.run (Bombd.step normalize) (initSession draws clientIds) inputs = some s →
      ∀ deltaTime, 0 < deltaTime →
        s.world.explodes.rear + s.world.bombs.queued.countP (·.expires deltaTime) ≤ 500 →
        Detonates normalize s deltaTime := by
  intro h
  obtain ⟨s,hs,ht⟩ := Execution.exists_of_run_any (Bombd.step id) (initSession (fun _ => 0) [1,2]) twoBombs
    (fun s => decide (s.world.explodes.rear + s.world.bombs.queued.countP (·.expires (1 / 2)) ≤ 500) &&
      !decide (((tickSession id s (1 / 2)).2.map ExplosionInfo.blast).Perm
        ((s.world.bombs.queued.filter (BombInfo.expires (1 / 2))).map BombInfo.blast))) (by decide +kernel)
  simp only [Bool.and_eq_true,decide_eq_true_eq,Bool.not_eq_true',decide_eq_false_iff_not] at ht
  exact ht.2 (h id (fun _ => 0) [1,2] twoBombs s hs (1 / 2) (by decide +kernel) ht.1).reported

end CoreStack.Bomberman
