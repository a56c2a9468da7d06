import Mathlib.Data.List.Nodup
import Zuckerserv.Fps.Targets
import Zuckerserv.Lib.Machine

/-!
# The numbers of the spies

A spy is known by a number above `spycn`, given by its place in `spies` when it enters; the
sender of packets goes back from the number to the place. When a spy leaves, those behind it
move up, but keep their numbers.

* `clientdisconnect`, `realCn` — a spy disconnects, and the way back from its number.
* `Server.SpiesFound` — the numbers differ, and lead back to the spies.
* `SpyAction.LastOut` — only the spy that entered last leaves.
* `spies_found` — then all spies are found, in any run.
* `second_spy_lost` — otherwise a spy can be given the number of another.
-/

namespace Zuckerserv

namespace Game

open IntIndex

/-! ## The code -/

/-- `T remove(int i)` of a vector, for `i` not negative. -/
def removeAt (l : List Handle) (i : Int32) : List Handle :=
  if i.toInt.toNat < l.length then l.eraseIdx i.toInt.toNat else l.dropLast

/-- `void real_cn(int &n)`. -/
def Server.realCn (s : Server) (n : Int32) : Option Int32 :=
  (item s.spies (n - s.spycn)).map fun c => (s.info c).n

/-- `void clientdisconnect(int n,int reason)`, as far as spies are concerned; then the client
in the slot `n` is deleted. -/
def clientdisconnect (n : Int32) (s : Server) : Server :=
  match s.getinfo n, (item s.slots n).join with
  | some ci, some c =>
    let spies := if (s.info ci).spy then removeAt s.spies ((s.info ci).clientnum - s.spycn)
      else s.spies
    { s.modify c fun ci => { ci with spy := false } with
      spies := spies, clients := s.clients.erase ci, slots := s.slots.set n.toInt.toNat none }
  | _, _ => s

/-- What happens to the spies. -/
inductive SpyAction
  /-- `set_spy`. -/
  | setspy (c : Handle) (val : Bool)
  /-- The connection in the slot `n` ends. -/
  | disconnect (n : Int32)

/-- The server does it. -/
def spystep (s : Server) : SpyAction → Server
  | .setspy c val => (setSpy c val s).1
  | .disconnect n => clientdisconnect n s

/-! ## Places -/

/-- The spies are told apart by their numbers, and found by them. -/
structure Server.SpiesFound (s : Server) : Prop where
  distinct : ∀ c d, (s.info c).spy = true → (s.info d).spy = true →
    (s.info c).clientnum = (s.info d).clientnum → c = d
  found : ∀ c, (s.info c).spy = true → item s.spies ((s.info c).clientnum - s.spycn) = some c
  real : ∀ c, (s.info c).spy = true → s.realCn (s.info c).clientnum = some (s.info c).n

/-- Every spy has the number of its place. -/
structure Server.Placed (s : Server) : Prop where
  number : ∀ (k : Nat) c, s.spies[k]? = some c →
    (s.info c).clientnum = s.spycn + Int32.ofNat k
  mem : ∀ c, c ∈ s.spies ↔ (s.info c).spy = true
  length : s.spies.length ≤ MAXSPIES

/-- The place of a spy, counted back from its number. -/
theorem place_toInt (n : Int32) {k : Nat} (hk : k ≤ MAXSPIES) :
    (n + Int32.ofNat k - n).toInt = k := by
  have hplace : n + Int32.ofNat k - n = Int32.ofNat k := by
    rw [Int32.add_comm, Int32.add_sub_cancel]
  have hsmall : k ≤ 5 := hk
  rw [hplace, Int32.toInt_ofNat_of_lt (by omega)]

theorem Server.Placed.item {s : Server} (h : s.Placed) {c : Handle} (hc : (s.info c).spy = true) :
    IntIndex.item s.spies ((s.info c).clientnum - s.spycn) = some c := by
  obtain ⟨k, hk⟩ := List.mem_iff_getElem?.mp ((h.mem c).mpr hc)
  have hlt := (List.getElem?_eq_some_iff.mp hk).1
  rw [h.number k c hk, item_of_toInt _ (place_toInt s.spycn (hlt.le.trans h.length))]
  exact hk

theorem Server.Placed.found {s : Server} (h : s.Placed) : s.SpiesFound where
  distinct c d hc hd heq := by
    have hitem := h.item hc
    rw [heq, h.item hd] at hitem
    exact (Option.some.inj hitem).symm
  found c hc := h.item hc
  real c hc := by
    rw [Server.realCn, h.item hc]
    rfl

/-! ## The last one leaves -/

/-- A spy that leaves is the one that entered last; a connection that ends is not taken for
that of a spy with its number. -/
def SpyAction.LastOut (s : Server) : SpyAction → Prop
  | .setspy c val => val = false → (s.info c).spy = true → s.spies.getLast? = some c
  | .disconnect n => ∀ c, s.getinfo n = some c → (item s.slots n).join = some c ∧
    ((s.info c).spy = true → s.spies.getLast? = some c)

/-- `setspectator` changes one state. -/
theorem setspectator_frame (c : Handle) (val : Bool) (s : Server) :
    ∃ f, (setspectator c val s).1 = s.modifyState c f := by
  have hsame : s = s.modifyState c id := by
    simp only [Server.modifyState, Server.modify, id, Function.update_eq_self]
  unfold setspectator Prog.choose
  dsimp only
  split_ifs
  · exact ⟨id, hsame⟩
  · exact ⟨fun gs => { gs with state := .SPECTATOR }, rfl⟩
  · exact ⟨fun gs => GameState.respawn { gs with state := .DEAD }, rfl⟩
  · exact ⟨id, hsame⟩

namespace Server.Placed

variable {s : Server}

/-- What matters to the places is kept. -/
theorem congr (h : s.Placed) {s' : Server} (hspies : s'.spies = s.spies)
    (hspycn : s'.spycn = s.spycn) (hnum : ∀ c, (s'.info c).clientnum = (s.info c).clientnum)
    (hspy : ∀ c, (s'.info c).spy = (s.info c).spy) : s'.Placed where
  number k c hk := by
    rw [hspies] at hk
    rw [hnum, hspycn]
    exact h.number k c hk
  mem c := by
    rw [hspies, hspy]
    exact h.mem c
  length := hspies ▸ h.length

theorem modifyState (h : s.Placed) (c : Handle) (f : GameState → GameState) :
    (s.modifyState c f).Placed := by
  refine h.congr rfl rfl (fun d => ?_) fun d => ?_
  · by_cases hd : d = c
    · rw [hd, Server.modifyState, Server.info_modify_self]
    · rw [Server.modifyState, Server.info_modify_of_ne s hd]
  · by_cases hd : d = c
    · rw [hd, Server.modifyState, Server.info_modify_self]
    · rw [Server.modifyState, Server.info_modify_of_ne s hd]

theorem setspectator (h : s.Placed) (c : Handle) (val : Bool) :
    (Game.setspectator c val s).1.Placed := by
  obtain ⟨f, hf⟩ := setspectator_frame c val s
  rw [hf]
  exact h.modifyState c f

/-- A spy enters, and gets the next number. -/
theorem enter (h : s.Placed) {c : Handle} (hspy : (s.info c).spy = false)
    (hlength : s.spies.length < MAXSPIES) :
    ({ s.modify c fun ci => { ci with
        spy := true, clientnum := s.spycn + Int32.ofNat s.spies.length } with
          spies := s.spies ++ [c] } : Server).Placed := by
  have hnew {d : Handle} (hd : d ∈ s.spies) : d ≠ c := by
    rintro rfl
    exact absurd (hspy.symm.trans ((h.mem d).mp hd)) Bool.noConfusion
  refine ⟨fun k d hk => ?_, fun d => ?_, ?_⟩
  · dsimp only at hk ⊢
    by_cases hlt : k < s.spies.length
    · rw [List.getElem?_append_left hlt] at hk
      rw [Server.info_modify_of_ne s (hnew (List.mem_of_getElem? hk))]
      exact h.number k d hk
    · rw [List.getElem?_append_right (not_lt.mp hlt)] at hk
      obtain ⟨hk0, hd⟩ := List.getElem?_eq_some_iff.mp hk
      have hkl : k = s.spies.length := by
        rw [List.length_singleton] at hk0
        omega
      subst hkl
      rw [← hd, List.getElem_singleton, Server.info_modify_self]
      rfl
  · dsimp only
    by_cases hd : d = c
    · rw [hd, Server.info_modify_self]
      simp
    · rw [Server.info_modify_of_ne s hd, ← h.mem d]
      simp [hd]
  · rw [List.length_append]
    exact hlength

theorem nodup (h : s.Placed) : s.spies.Nodup := by
  refine List.nodup_iff_getElem?_ne_getElem?.mpr fun i j hij hj heq => ?_
  have hj' := List.getElem?_eq_getElem hj
  rw [hj'] at heq
  have hlength := h.length
  have hi := place_toInt s.spycn (k := i) (by omega)
  rw [← h.number i _ heq, h.number j _ hj', place_toInt s.spycn (by omega)] at hi
  omega

/-- The last spy is gone. -/
theorem leave (h : s.Placed) {c : Handle} (hlast : s.spies.getLast? = some c) {s' : Server}
    (hspies : s'.spies = s.spies.dropLast) (hspycn : s'.spycn = s.spycn)
    (hself : (s'.info c).spy = false) (hother : ∀ d, d ≠ c → s'.info d = s.info d) :
    s'.Placed := by
  obtain ⟨front, hfront⟩ := List.getLast?_eq_some_iff.mp hlast
  have hdrop : s'.spies = front := by rw [hspies, hfront, List.dropLast_concat]
  have hnotin : c ∉ front := fun hmem => by
    have hnodup := h.nodup
    rw [hfront] at hnodup
    exact (List.nodup_append.mp hnodup).2.2 c hmem c List.mem_cons_self rfl
  refine ⟨fun k d hk => ?_, fun d => ?_, ?_⟩
  · rw [hdrop] at hk
    have hd : d ≠ c := fun hd => hnotin (hd ▸ List.mem_of_getElem? hk)
    have hlt := (List.getElem?_eq_some_iff.mp hk).1
    rw [hother d hd, hspycn]
    exact h.number k d (by rw [hfront, List.getElem?_append_left hlt, hk])
  · rw [hdrop]
    by_cases hd : d = c
    · rw [hd, hself]
      simp [hnotin]
    · rw [hother d hd, ← h.mem d, hfront]
      simp [hd]
  · rw [hdrop]
    have := h.length
    rw [hfront, List.length_append] at this
    omega

end Server.Placed

/-- `removeAt` for the place of the last one. -/
theorem removeAt_last {l : List Handle} {i : Int32} (h : i.toInt.toNat + 1 = l.length) :
    removeAt l i = l.dropLast := by
  rw [removeAt, if_pos (by omega), List.eraseIdx_eq_dropLast h]

theorem getLast_place {s : Server} (h : s.Placed) {c : Handle}
    (hlast : s.spies.getLast? = some c) :
    ((s.info c).clientnum - s.spycn).toInt.toNat + 1 = s.spies.length := by
  obtain ⟨front, hfront⟩ := List.getLast?_eq_some_iff.mp hlast
  have hlength : front.length + 1 ≤ MAXSPIES := by
    have := h.length
    rwa [hfront, List.length_append] at this
  have hend : s.spies[front.length]? = some c := by
    rw [hfront, List.getElem?_append_right le_rfl, Nat.sub_self]
    rfl
  rw [h.number _ c hend, place_toInt s.spycn (by omega), hfront, List.length_append]
  rfl

theorem erase_last {l : List Handle} {c : Handle} (hnodup : l.Nodup)
    (hlast : l.getLast? = some c) : l.erase c = l.dropLast := by
  obtain ⟨front, rfl⟩ := List.getLast?_eq_some_iff.mp hlast
  have hnotin : c ∉ front := fun hmem =>
    (List.nodup_append.mp hnodup).2.2 c hmem c List.mem_cons_self rfl
  rw [List.erase_append_right _ hnotin, List.dropLast_concat, List.erase_cons_head,
    List.append_nil]

theorem setspectator_spy (c : Handle) (val : Bool) (s : Server) :
    ((setspectator c val s).1.info c).spy = (s.info c).spy ∧
      (setspectator c val s).1.spies = s.spies := by
  obtain ⟨f, hf⟩ := setspectator_frame c val s
  rw [hf, Server.modifyState, Server.info_modify_self]
  exact ⟨rfl, rfl⟩

/-- A spy that is the last one leaves the spy mode. -/
theorem Server.Placed.leavespy {s : Server} (h : s.Placed) {c : Handle}
    (hlast : s.spies.getLast? = some c) :
    ({ s.modify c fun ci => { ci with spy := false, clientnum := ci.n } with
      spies := s.spies.erase c } : Server).Placed := by
  refine h.leave hlast (erase_last h.nodup hlast) rfl ?_ fun d hd => ?_
  · dsimp only
    rw [Server.info_modify_self]
  · dsimp only
    rw [Server.info_modify_of_ne s hd]

theorem placed_setSpy {s : Server} (h : s.Placed) (c : Handle) (val : Bool)
    (hlast : val = false → (s.info c).spy = true → s.spies.getLast? = some c) :
    (setSpy c val s).1.Placed := by
  unfold setSpy Prog.choose
  dsimp only
  split_ifs with hsame hval hmax hcon hmode
  · exact h
  · exact h
  · obtain ⟨hspy, hspies⟩ := setspectator_spy c true s
    refine (h.setspectator c true).enter ?_ ?_
    · rw [hspy]
      simpa [hval] using hsame
    · rw [hspies]
      exact not_le.mp hmax
  · exact h.enter (by simpa [hval] using hsame) (not_le.mp hmax)
  · exact (h.leavespy (hlast (by simpa using hval) (by simpa [hval] using hsame))).setspectator c false
  · exact h.leavespy (hlast (by simpa using hval) (by simpa [hval] using hsame))

theorem placed_clientdisconnect {s : Server} (h : s.Placed) (n : Int32)
    (hlast : ∀ c, s.getinfo n = some c → (item s.slots n).join = some c ∧
      ((s.info c).spy = true → s.spies.getLast? = some c)) :
    (clientdisconnect n s).Placed := by
  unfold clientdisconnect
  split
  · rename_i ci c hci hc
    obtain ⟨hslot, hspy⟩ := hlast ci hci
    cases hc.symm.trans hslot
    cases hflag : (s.info ci).spy with
    | true =>
      have hlast := hspy hflag
      refine h.leave hlast ?_ rfl ?_ fun d hd => ?_
      · dsimp only
        rw [if_pos rfl]
        exact removeAt_last (getLast_place h hlast)
      · dsimp only
        rw [Server.info_modify_self]
      · dsimp only
        rw [Server.info_modify_of_ne s hd]
    | false =>
      refine h.congr ?_ rfl (fun d => ?_) fun d => ?_
      · dsimp only
        rw [if_neg Bool.false_ne_true]
      · dsimp only
        by_cases hd : d = ci
        · rw [hd, Server.info_modify_self]
        · rw [Server.info_modify_of_ne s hd]
      · dsimp only
        by_cases hd : d = ci
        · rw [hd, Server.info_modify_self, hflag]
        · rw [Server.info_modify_of_ne s hd]
  · exact h

/-! ## Runs -/

/-- While only the spy that entered last leaves, the numbers of the spies differ, and each
leads back to its spy, in every state that is reached. -/
theorem spies_found {s : Server} (hspies : s.spies = []) (hflags : ∀ c, (s.info c).spy = false)
    (as : List SpyAction) (h : Machine.Along SpyAction.LastOut spystep s as) :
    (Machine.run spystep s as).SpiesFound := by
  have hstart : s.Placed := by
    refine ⟨fun k c hk => ?_, fun c => ?_, ?_⟩
    · rw [hspies] at hk
      exact absurd hk (by simp)
    · rw [hspies, hflags c]
      simp
    · rw [hspies]
      exact Nat.zero_le _
  refine (h.inv (P := Server.Placed) (fun s a hlast hs => ?_) hstart).found
  cases a with
  | setspy c val => exact placed_setSpy hs c val hlast
  | disconnect n => exact placed_clientdisconnect hs n hlast

/-- Two spies enter, and the second one leaves. -/
theorem spies_found_two : (Machine.run spystep beginning
    [.setspy 0 true, .setspy 1 true, .setspy 1 false]).SpiesFound :=
  spies_found rfl (fun _ => rfl) _ (by
    refine ⟨fun h => absurd h Bool.noConfusion, fun h => absurd h Bool.noConfusion, ?_, trivial⟩
    exact fun _ _ => rfl)

/-- Two spies enter, the first one leaves, and the next one gets the number of the second,
which does not lead back to either. -/
theorem second_spy_lost :
    let s := Machine.run spystep beginning
      [.setspy 0 true, .setspy 1 true, .setspy 0 false, .setspy 0 true]
    ((s.info 0).spy = true ∧ (s.info 1).spy = true ∧ (s.info 0).clientnum = (s.info 1).clientnum) ∧
      ¬ s.SpiesFound := by
  intro s
  have hsame : (s.info 0).spy = true ∧ (s.info 1).spy = true ∧
      (s.info 0).clientnum = (s.info 1).clientnum := by decide +kernel
  exact ⟨hsame, fun h => absurd (h.distinct 0 1 hsame.1 hsame.2.1 hsame.2.2) (by decide)⟩

end Game

end Zuckerserv
