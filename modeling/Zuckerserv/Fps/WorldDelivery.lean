import Zuckerserv.Fps.WorldWindow

/-!
# What the world state delivers

* `laid_layBlock`, `laid_addpending` — laying a block keeps the invariant of a phase.
* `laid_hosted`, `laid_clients` — the blocks of one client and its bots, and of all
  clients.
* `Hosting` — every bot is in exactly its owner's list.
* `buildworldstate_delivers` — on each channel every human client is sent all blocks but
  its own, each once.
-/

namespace Zuckerserv

namespace WorldState

section Send

variable {route : Int32 → Handle} {ch : Channel} {clients : List Handle} {s₀ s : State}
  {groups : List (List Block)} {g : List Block} {budget : Nat}

/-! ## Laying a block -/

/-- The blocks of `o`, if there are any, are the last ones. -/
def Last (o : Handle) (g : List Block) : Prop :=
  ∃ pre own, g = pre ++ own ∧ (∀ b ∈ pre, b.owner ≠ o) ∧ ∀ b ∈ own, b.owner = o

theorem last_of_ne {o : Handle} {g : List Block} (h : ∀ b ∈ g, b.owner ≠ o) : Last o g :=
  ⟨g, [], (List.append_nil g).symm, h, fun _ hb => absurd hb List.not_mem_nil⟩

theorem Last.append {o : Handle} {g : List Block} (h : Last o g) {b : Block} (hb : b.owner = o) :
    Last o (g ++ [b]) := by
  obtain ⟨pre, own, rfl, hpre, hown⟩ := h
  refine ⟨pre, own ++ [b], List.append_assoc .., hpre, fun x hx => ?_⟩
  rcases List.mem_append.mp hx with hx | hx
  · exact hown x hx
  · rw [List.mem_singleton.mp hx, hb]

/-- Blocks of `o` that are the last ones have nothing behind them. -/
theorem Last.post_eq_nil {o : Handle} {g pre own post : List Block} (h : Last o g)
    (hcut : IsCut o g pre own post) (hown : own ≠ []) : post = [] := by
  obtain ⟨pre', own', hg, hpre', hown'⟩ := h
  rcases List.eq_nil_or_concat' post with rfl | ⟨front, b, rfl⟩
  · rfl
  have hb : b.owner ≠ o := hcut.post_ne b (by simp)
  rcases List.eq_nil_or_concat' own' with rfl | ⟨front', b', rfl⟩
  · -- then no block at all would be of `o`
    obtain ⟨x, hx⟩ := List.exists_mem_of_ne_nil own hown
    have hxg : x ∈ pre' := by
      rw [List.append_nil] at hg
      rw [← hg, hcut.eq]
      simp [hx]
    exact absurd (hcut.own_eq x hx) (hpre' x hxg)
  · have hlast : b = b' := by
      have h1 : g.getLast? = some b := by rw [hcut.eq, ← List.append_assoc]; simp
      have h2 : g.getLast? = some b' := by rw [hg, ← List.append_assoc]; simp
      exact Option.some.inj (h1.symm.trans h2)
    exact absurd (hlast ▸ hown' b' (by simp)) hb

/-- The block of `bi` in the name of `ci`, the buffer having room. -/
def layBlock (ch : Channel) (bi ci : Handle) (s : State) : State :=
  let offset := s.wsbuf.len
  let wsbuf := ch.put s.wsbuf (s.info bi)
  let info := Function.update s.info bi (ch.clear (s.info bi))
  let len := wsbuf.len - offset
  let c := info ci
  { s with
    wsbuf
    info := Function.update info ci <| match s.inBuffer ci with
      | some _ => { c with wslen := c.wslen + len }
      | none => { c with wsdata := some (s.base + offset), wslen := len } }

/-- `addpending` is `layBlock`, with a `sendpending` in front of it if need be. -/
theorem addpending_eq (mtu : Int) (bi ci : Handle) (hne : ch.get (s.info bi) ≠ []) :
    addpending ch clients mtu bi ci s = layBlock ch bi ci
      (if (s.wsbuf.len + ch.header + (ch.get (s.info bi)).length : Int) > mtu then
        sendpending ch clients s else s) := by
  rw [addpending, if_neg hne]
  rfl

/-- Clearing a queue keeps the rest of the client. -/
theorem update_clear (hch : ch.Lawful) (bi i : Handle) :
    let x := Function.update s.info bi (ch.clear (s.info bi)) i
    x.clientnum = (s.info i).clientnum ∧ x.isBot = (s.info i).isBot ∧ x.bots = (s.info i).bots ∧
      x.wsdata = (s.info i).wsdata ∧ x.wslen = (s.info i).wslen := by
  by_cases hi : i = bi
  · subst hi
    simp only [Function.update_self]
    exact hch.clear_eq _
  · simp only [Function.update_of_ne hi, and_self]

/-- The clients after a block has been laid: only the pointer of `ci` and the queue of
`bi` have changed. -/
theorem layBlock_info (hch : ch.Lawful) (bi ci i : Handle) :
    let x := (layBlock ch bi ci s).info i
    x.clientnum = (s.info i).clientnum ∧ x.isBot = (s.info i).isBot ∧ x.bots = (s.info i).bots ∧
      (i ≠ ci → x.wsdata = (s.info i).wsdata ∧ x.wslen = (s.info i).wslen) := by
  obtain ⟨h1, h2, h3, h4, h5⟩ := update_clear (s := s) hch bi i
  by_cases hi : i = ci
  · subst hi
    simp only [layBlock, Function.update_self]
    split <;> exact ⟨h1, h2, h3, fun hne => absurd rfl hne⟩
  · simp only [layBlock, Function.update_of_ne hi]
    exact ⟨h1, h2, h3, fun _ => ⟨h4, h5⟩⟩

/-- The pointer of the client in whose name a block has been laid. -/
theorem layBlock_owner (hch : ch.Lawful) (bi ci : Handle)
    (hput : ch.put s.wsbuf (s.info bi) = s.wsbuf.putVals (block ch (s.info bi)))
    (hfit : (block ch (s.info bi)).length ≤ s.wsbuf.remaining) :
    let x := (layBlock ch bi ci s).info ci
    (s.inBuffer ci = none → x.wsdata = some (s.base + s.wsbuf.len) ∧
        x.wslen = (block ch (s.info bi)).length) ∧
      (∀ p, s.inBuffer ci = some p → x.wsdata = (s.info ci).wsdata ∧
        x.wslen = (s.info ci).wslen + (block ch (s.info bi)).length) := by
  obtain ⟨-, -, -, h4, h5⟩ := update_clear (s := s) hch bi ci
  have hlen : (ch.put s.wsbuf (s.info bi)).len - s.wsbuf.len = (block ch (s.info bi)).length := by
    rw [hput, DataBuf.len_putVals hfit, Nat.add_sub_cancel_left]
  simp only [layBlock, Function.update_self, hlen]
  refine ⟨fun hnone => ?_, fun p hp => ?_⟩
  · rw [hnone]
    exact ⟨rfl, rfl⟩
  · rw [hp]
    exact ⟨h4, congrArg (· + _) h5⟩

/-- A block is laid behind the others of its owner. -/
theorem window_lay_own {s' : State} {c : Handle} {b : Block} (h : Window s g c) (hlast : Last c g)
    (hb : b.owner = c) (hlen : s.wsbuf.len = (flat g).length) (hbase : s'.base = s.base)
    (hnew : s.inBuffer c = none → (s'.info c).wsdata = some (s.base + s.wsbuf.len) ∧
      (s'.info c).wslen = b.bytes.length)
    (hmore : ∀ p, s.inBuffer c = some p → (s'.info c).wsdata = (s.info c).wsdata ∧
      (s'.info c).wslen = (s.info c).wslen + b.bytes.length) : Window s' (g ++ [b]) c := by
  cases h with
  | none hall hnone =>
    obtain ⟨hptr, hwslen⟩ := hnew hnone
    refine .some g [b] [] ⟨(List.append_nil _).symm, hall, ?_, ?_⟩ (List.cons_ne_nil _ _)
      (by rw [hptr, hlen, hbase]) (by rw [hwslen, flat_singleton])
    · intro x hx
      rw [List.mem_singleton.mp hx, hb]
    · exact fun x hx => absurd hx List.not_mem_nil
  | some pre own post hcut hown hptr hwslen =>
    obtain rfl := hlast.post_eq_nil hcut hown
    have hin : s.inBuffer c = some (s.base + (flat pre).length) := by
      rw [State.inBuffer, hptr, Option.filter_some_pos (by simp)]
    obtain ⟨hptr', hwslen'⟩ := hmore _ hin
    refine .some pre (own ++ [b]) [] ⟨?_, hcut.pre_ne, ?_, ?_⟩ (by simp)
      (by rw [hptr', hptr, hbase])
      (by rw [hwslen', hwslen, flat_append, flat_singleton, List.length_append])
    · rw [hcut.eq]
      simp only [List.append_nil, List.append_assoc]
    · intro x hx
      rcases List.mem_append.mp hx with hx | hx
      · exact hcut.own_eq x hx
      · rw [List.mem_singleton.mp hx, hb]
    · exact fun x hx => absurd hx List.not_mem_nil

/-- A block of another client is laid. -/
theorem window_lay_other {s' : State} {c : Handle} {b : Block} (h : Window s g c)
    (hb : b.owner ≠ c) (hbase : s'.base = s.base)
    (hptr : (s'.info c).wsdata = (s.info c).wsdata) (hwslen : (s'.info c).wslen = (s.info c).wslen) :
    Window s' (g ++ [b]) c := by
  have hmem {x : Block} (hx : x ∈ [b]) : x.owner ≠ c := by
    rw [List.mem_singleton.mp hx]
    exact hb
  cases h with
  | none hall hnone =>
    refine .none (fun x hx => ?_) ?_
    · rcases List.mem_append.mp hx with hx | hx
      · exact hall x hx
      · exact hmem hx
    · rw [State.inBuffer, hptr, hbase]
      exact hnone
  | some pre own post hcut hown hptr₀ hwslen₀ =>
    refine .some pre own (post ++ [b]) ⟨?_, hcut.pre_ne, hcut.own_eq, fun x hx => ?_⟩ hown
      (by rw [hptr, hptr₀, hbase]) (by rw [hwslen, hwslen₀])
    · rw [hcut.eq]
      simp only [List.append_assoc]
    · rcases List.mem_append.mp hx with hx | hx
      · exact hcut.post_ne x hx
      · exact hmem hx

/-- Laying a block keeps the invariant. -/
theorem laid_layBlock (hch : ch.Lawful) (bi ci : Handle)
    (hne : ch.get (s.info bi) ≠ []) (hlast : Last ci g)
    (h : Laid route ch clients s₀ s groups g (need ch (s.info bi) + budget)) :
    Laid route ch clients s₀ (layBlock ch bi ci s) groups (g ++ [⟨ci, bi, block ch (s.info bi)⟩])
      budget := by
  have hroom := h.room
  have hlen := h.len_eq
  have hblock := hch.length_block_le (s.info bi)
  rw [need, if_neg hne] at hroom
  have hfit : (block ch (s.info bi)).length ≤ s.wsbuf.remaining := by
    rw [DataBuf.remaining]
    omega
  have hput := hch.put_eq s.wsbuf (s.info bi) hfit
  have hwsbuf : (layBlock ch bi ci s).wsbuf = s.wsbuf.putVals (block ch (s.info bi)) := hput
  have hinfo := fun i => layBlock_info (s := s) hch bi ci i
  obtain ⟨hnew, hmore⟩ := layBlock_owner hch bi ci hput hfit
  have hwithin : ∀ p ∈ (layBlock ch bi ci s).sent, p.Within (layBlock ch bi ci s).front := h.within
  have hdelivered (k : Nat) (c : Handle) :
      delivered route (layBlock ch bi ci s) k c = delivered route s k c := by
    rw [delivered_eq hwithin, delivered_eq h.within]
    rfl
  refine ⟨h.routed, ?_, fun b hb => ?_, ?_, fun c hmem => ?_, h.cut, hwithin,
    fun c hc hbot => ?_, fun c k hk => ?_, fun i => ?_⟩
  · rw [hwsbuf, DataBuf.written_putVals hfit, h.written, flat_append, flat_singleton]
  · rcases List.mem_append.mp hb with hb | hb
    · exact h.bytes_ne b hb
    · rw [List.mem_singleton.mp hb]
      exact hch.block_ne_nil _ hne
  · rw [hwsbuf, DataBuf.len_putVals hfit, DataBuf.maxlen_putVals]
    omega
  · by_cases hci : c = ci
    · subst hci
      exact window_lay_own (h.window c hmem) hlast rfl hlen rfl hnew hmore
    · obtain ⟨hptr, hwslen⟩ := (hinfo c).2.2.2 hci
      exact window_lay_other (h.window c hmem) (Ne.symm hci) rfl hptr hwslen
  · rw [hdelivered]
    exact h.sent c hc hbot
  · rw [hdelivered]
    exact h.other c k hk
  · obtain ⟨h1, h2, h3, -⟩ := hinfo i
    obtain ⟨e1, e2, e3⟩ := h.static i
    exact ⟨h1.trans e1, h2.trans e2, h3.trans e3⟩

/-- The block of the sender `b`, in the name of `o`, if it has queued anything. -/
def blockOf (ch : Channel) (info : Handle → ClientInfo) (o b : Handle) : List Block :=
  if ch.get (info b) = [] then [] else [⟨o, b, block ch (info b)⟩]

theorem sendpending_info (ch : Channel) (clients : List Handle) (s : State) :
    (sendpending ch clients s).info = s.info := by
  unfold sendpending
  split_ifs <;> rfl

/-- What laying and sending leave alone, field by field. -/
theorem addpending_frame {α : Type} {F : ClientInfo → α}
    (hclear : ∀ x, F (ch.clear x) = F x)
    (hws : ∀ (x : ClientInfo) (p : Option Nat) (n : Nat), F { x with wsdata := p, wslen := n } = F x)
    (mtu : Int) (bi ci i : Handle) :
    F ((addpending ch clients mtu bi ci s).info i) = F (s.info i) := by
  by_cases hne : ch.get (s.info bi) = []
  · rw [addpending, if_pos hne]
  have hlay (t : State) : F ((layBlock ch bi ci t).info i) = F (t.info i) := by
    have hupd : F (Function.update t.info bi (ch.clear (t.info bi)) i) = F (t.info i) := by
      by_cases hi : i = bi
      · subst hi
        rw [Function.update_self, hclear]
      · rw [Function.update_of_ne hi]
    by_cases hi : i = ci
    · subst hi
      simp only [layBlock, Function.update_self]
      split <;> exact (hws _ _ _).trans hupd
    · simp only [layBlock, Function.update_of_ne hi]
      exact hupd
  rw [addpending_eq mtu bi ci hne, hlay]
  split_ifs
  · rw [sendpending_info]
  · rfl

/-- The queues of the other clients stay as they are. -/
theorem addpending_get (hch : ch.Lawful) (mtu : Int) {bi ci i : Handle} (hi : i ≠ bi) :
    ch.get ((addpending ch clients mtu bi ci s).info i) = ch.get (s.info i) := by
  by_cases hne : ch.get (s.info bi) = []
  · rw [addpending, if_pos hne]
  have hlay (t : State) : ch.get ((layBlock ch bi ci t).info i) = ch.get (t.info i) := by
    by_cases hic : i = ci
    · subst hic
      simp only [layBlock, Function.update_self]
      rw [Function.update_of_ne hi]
      split <;> exact hch.getWs _ _ _
    · simp only [layBlock, Function.update_of_ne hic, Function.update_of_ne hi]
  rw [addpending_eq mtu bi ci hne, hlay]
  split_ifs
  · rw [sendpending_info]
  · rfl

/-- `addpending` lays the block of `bi`, behind a flush or not. -/
theorem laid_addpending (hch : ch.Lawful) (hnodup : clients.Nodup) (mtu : Int) (bi ci : Handle)
    (hlast : Last ci g) (h : Laid route ch clients s₀ s groups g (need ch (s.info bi) + budget)) :
    ∃ groups' g', Laid route ch clients s₀ (addpending ch clients mtu bi ci s) groups' g' budget ∧
      groups'.flatten ++ g' = groups.flatten ++ g ++ blockOf ch s.info ci bi ∧
      Last ci g' ∧ ∀ b ∈ g', b.owner = ci ∨ b ∈ g := by
  by_cases hne : ch.get (s.info bi) = []
  · rw [addpending, if_pos hne, blockOf, if_pos hne, List.append_nil]
    rw [need, if_pos hne, Nat.zero_add] at h
    exact ⟨groups, g, h, rfl, hlast, fun b hb => Or.inr hb⟩
  rw [addpending_eq mtu bi ci hne, blockOf, if_neg hne]
  by_cases hflush : (s.wsbuf.len + ch.header + (ch.get (s.info bi)).length : Int) > mtu ∧ g ≠ []
  · have hs := laid_sendpending hnodup h hflush.2
    rw [if_pos hflush.1]
    rw [← sendpending_info ch clients s] at hs hne ⊢
    refine ⟨groups ++ [g], _, laid_layBlock hch bi ci hne (last_of_ne (by simp)) hs, ?_,
      (last_of_ne (by simp)).append rfl, fun b hb => ?_⟩
    · simp
    · rw [List.nil_append, List.mem_singleton] at hb
      exact Or.inl (hb ▸ rfl)
  · -- an empty buffer is not sent
    have hsame : (if (s.wsbuf.len + ch.header + (ch.get (s.info bi)).length : Int) > mtu then
        sendpending ch clients s else s) = s := by
      split_ifs with hgt
      · have hg : g = [] := not_not.mp fun hg => hflush ⟨hgt, hg⟩
        have hlen := h.len_eq
        rw [hg, flat_nil, List.length_nil] at hlen
        rw [sendpending, if_pos hlen]
      · rfl
    rw [hsame]
    refine ⟨groups, _, laid_layBlock hch bi ci hne hlast h, ?_, hlast.append rfl, fun b hb => ?_⟩
    · rw [List.append_assoc]
    · rcases List.mem_append.mp hb with hb | hb
      · exact Or.inr hb
      · exact Or.inl (by rw [List.mem_singleton.mp hb])

end Send

/-! ## A whole phase -/

theorem blockOf_congr {ch : Channel} {info info' : Handle → ClientInfo} {b : Handle}
    (hget : ch.get (info b) = ch.get (info' b))
    (hnum : (info b).clientnum = (info' b).clientnum) (o : Handle) :
    blockOf ch info o b = blockOf ch info' o b := by
  simp only [blockOf, block, hget, hnum]

/-- The clients whose blocks are laid in the name of `i`: itself and its bots. -/
def hosted (info : Handle → ClientInfo) (i : Handle) : List Handle :=
  if (info i).isBot then [] else i :: (info i).bots

/-- The blocks of the clients `cs`, in the order in which they are laid. -/
def laidBlocks (ch : Channel) (info : Handle → ClientInfo) (cs : List Handle) : List Block :=
  cs.flatMap fun i => (hosted info i).flatMap (blockOf ch info i)

section Phase

variable {route : Int32 → Handle} {ch : Channel} {clients : List Handle} {s₀ : State} (hch : ch.Lawful)
  (hnodup : clients.Nodup) (mtu : Int)
include hch hnodup

/-- The blocks of one client and its bots. -/
theorem laid_hosted (o : Handle) {bs : List Handle} (hbs : bs.Nodup) {s : State}
    {groups : List (List Block)} {g : List Block} {budget : Nat}
    (hq : ∀ b ∈ bs, ch.get (s.info b) = ch.get (s₀.info b)) (hlast : Last o g)
    (h : Laid route ch clients s₀ s groups g ((bs.map fun b => need ch (s₀.info b)).sum + budget)) :
    ∃ groups' g',
      Laid route ch clients s₀ (bs.foldl (fun s b => addpending ch clients mtu b o s) s) groups' g'
        budget ∧
      groups'.flatten ++ g' = groups.flatten ++ g ++ bs.flatMap (blockOf ch s₀.info o) ∧
      (∀ b ∈ g', b.owner = o ∨ b ∈ g) ∧
      ∀ i ∉ bs, ch.get ((bs.foldl (fun s b => addpending ch clients mtu b o s) s).info i) =
        ch.get (s.info i) := by
  induction bs generalizing s groups g with
  | nil =>
    rw [List.map_nil, List.sum_nil, Nat.zero_add] at h
    exact ⟨groups, g, h, (List.append_nil _).symm, fun b hb => Or.inr hb, fun i _ => rfl⟩
  | cons b bs ih =>
    obtain ⟨hb, hbs⟩ := List.nodup_cons.mp hbs
    have hget := hq b (List.mem_cons_self ..)
    have hneed : need ch (s.info b) = need ch (s₀.info b) := by
      rw [need, need, hget]
    rw [List.map_cons, List.sum_cons, Nat.add_assoc, ← hneed] at h
    obtain ⟨groups', g', hlaid, heq, hlast', howner⟩ :=
      laid_addpending hch hnodup mtu b o hlast h
    have hq' : ∀ i ∈ bs, ch.get ((addpending ch clients mtu b o s).info i) =
        ch.get (s₀.info i) := fun i hi => by
      have hib : i ≠ b := fun hib => hb (hib ▸ hi)
      rw [addpending_get hch mtu hib, hq i (List.mem_cons_of_mem _ hi)]
    obtain ⟨groups'', g'', hlaid', heq', howner', hrest⟩ := ih hbs hq' hlast' hlaid
    refine ⟨groups'', g'', hlaid', ?_, fun x hx => ?_, fun i hi => ?_⟩
    · rw [heq', heq, blockOf_congr hget (h.static b).1, List.flatMap_cons,
        List.append_assoc]
    · rcases howner' x hx with hx | hx
      · exact Or.inl hx
      · exact howner x hx
    · rw [List.mem_cons, not_or] at hi
      rw [List.foldl_cons, hrest i hi.2, addpending_get hch mtu hi.1]

omit hch hnodup in
/-- The loop body over `clients`, for a client that is still as it was. -/
theorem addclient_eq (add : Handle → Handle → State → State) {s : State} {i : Handle}
    (hbot : (s.info i).isBot = (s₀.info i).isBot) (hbots : (s.info i).bots = (s₀.info i).bots) :
    addclient add s i = (hosted s₀.info i).foldl (fun s b => add b i s) s := by
  unfold addclient hosted
  rw [hbot, hbots]
  split_ifs <;> rfl

/-- The blocks of the clients `cs`. -/
theorem laid_clients {cs : List Handle} (hcs : cs.Nodup)
    (hsenders : (cs.flatMap (hosted s₀.info)).Nodup) {s : State} {groups : List (List Block)}
    {g : List Block} {budget : Nat}
    (hq : ∀ b ∈ cs.flatMap (hosted s₀.info), ch.get (s.info b) = ch.get (s₀.info b))
    (howner : ∀ b ∈ g, b.owner ∉ cs)
    (h : Laid route ch clients s₀ s groups g
      (((cs.flatMap (hosted s₀.info)).map fun b => need ch (s₀.info b)).sum + budget)) :
    ∃ groups' g',
      Laid route ch clients s₀ (cs.foldl (addclient (addpending ch clients mtu)) s) groups' g' budget ∧
      groups'.flatten ++ g' = groups.flatten ++ g ++ laidBlocks ch s₀.info cs := by
  induction cs generalizing s groups g with
  | nil =>
    rw [List.flatMap_nil, List.map_nil, List.sum_nil, Nat.zero_add] at h
    exact ⟨groups, g, h, (List.append_nil _).symm⟩
  | cons i cs ih =>
    obtain ⟨hi, hcs⟩ := List.nodup_cons.mp hcs
    rw [List.flatMap_cons] at hsenders hq h
    obtain ⟨hhosted, hrest, hdisj⟩ := List.nodup_append'.mp hsenders
    rw [List.map_append, List.sum_append, Nat.add_assoc] at h
    have hlast : Last i g := last_of_ne fun b hb hbi =>
      howner b hb (hbi ▸ List.mem_cons_self ..)
    obtain ⟨groups', g', hlaid, heq, howner', hget⟩ := laid_hosted hch hnodup mtu i hhosted
      (fun b hb => hq b (List.mem_append_left _ hb)) hlast h
    have hq' : ∀ b ∈ cs.flatMap (hosted s₀.info), ch.get (((hosted s₀.info i).foldl
        (fun s b => addpending ch clients mtu b i s) s).info b) = ch.get (s₀.info b) :=
      fun b hb => by
        rw [hget b fun hbi => hdisj hbi hb, hq b (List.mem_append_right _ hb)]
    have howner'' : ∀ b ∈ g', b.owner ∉ cs := fun b hb hbc => by
      rcases howner' b hb with hbi | hbg
      · exact hi (hbi ▸ hbc)
      · exact howner b hbg (List.mem_cons_of_mem _ hbc)
    obtain ⟨groups'', g'', hlaid', heq'⟩ := ih hcs hrest hq' howner'' hlaid
    obtain ⟨-, hbot, hbots⟩ := h.static i
    refine ⟨groups'', g'', ?_, ?_⟩
    · rw [List.foldl_cons, addclient_eq _ hbot hbots]
      exact hlaid'
    · rw [heq', heq, laidBlocks, laidBlocks, List.flatMap_cons, List.append_assoc]

/-- A whole phase: all blocks are laid, and the rest of the buffer is sent at its end. -/
theorem laid_phase (hsenders : (clients.flatMap (hosted s₀.info)).Nodup) {budget : Nat}
    (h : Laid route ch clients s₀ s₀ [] []
      (((clients.flatMap (hosted s₀.info)).map fun b => need ch (s₀.info b)).sum + budget)) :
    ∃ groups, Laid route ch clients s₀
        (sendpending ch clients (clients.foldl (addclient (addpending ch clients mtu)) s₀))
        groups [] budget ∧
      groups.flatten = laidBlocks ch s₀.info clients := by
  obtain ⟨groups, g, hlaid, heq⟩ := laid_clients hch hnodup mtu hnodup hsenders
    (fun b _ => rfl) (fun b hb => absurd hb List.not_mem_nil) h
  rw [List.flatten_nil, List.nil_append, List.nil_append] at heq
  by_cases hg : g = []
  · subst hg
    have hlen := hlaid.len_eq
    rw [flat_nil, List.length_nil] at hlen
    rw [sendpending, if_pos hlen]
    exact ⟨groups, hlaid, by rw [← heq, List.append_nil]⟩
  · refine ⟨groups ++ [g], laid_sendpending hnodup hlaid hg, ?_⟩
    rw [← heq, List.flatten_append, List.flatten_singleton]

end Phase

/-- Where one phase ends the next one begins. -/
theorem Laid.next {route : Int32 → Handle} {ch ch' : Channel} {clients : List Handle} {s₀ s : State}
    {groups : List (List Block)} {budget : Nat} (h : Laid route ch clients s₀ s groups [] budget) :
    Laid route ch' clients s s [] [] budget where
  routed c hc hhuman := by
    obtain ⟨hnum, hbot, -⟩ := h.static c
    rw [hnum]
    exact h.routed c hc (hbot ▸ hhuman)
  written := h.written
  bytes_ne := h.bytes_ne
  room := h.room
  window := h.window
  cut _ _ _ hx := absurd hx List.not_mem_nil
  within := h.within
  sent _ _ _ := (List.append_nil _).symm
  other _ _ _ := rfl
  static _ := ⟨rfl, rfl, rfl⟩

/-- What a phase leaves alone, field by field. -/
theorem phase_frame {ch : Channel} {α : Type} {F : ClientInfo → α}
    (hclear : ∀ x, F (ch.clear x) = F x)
    (hws : ∀ (x : ClientInfo) (p : Option Nat) (n : Nat), F { x with wsdata := p, wslen := n } = F x)
    (clients : List Handle) (mtu : Int) (cs : List Handle) (s : State) (i : Handle) :
    F ((cs.foldl (addclient (addpending ch clients mtu)) s).info i) = F (s.info i) := by
  have hbots (o : Handle) (bs : List Handle) (t : State) :
      F ((bs.foldl (fun s b => addpending ch clients mtu b o s) t).info i) = F (t.info i) := by
    induction bs generalizing t with
    | nil => rfl
    | cons b bs ih => rw [List.foldl_cons, ih, addpending_frame hclear hws]
  induction cs generalizing s with
  | nil => rfl
  | cons c cs ih =>
    have hadd : addclient (addpending ch clients mtu) s c =
        (hosted s.info c).foldl (fun t b => addpending ch clients mtu b c t) s :=
      addclient_eq _ rfl rfl
    rw [List.foldl_cons, ih, hadd, hbots]

/-! ## Bots and their owners -/

/-- Every bot is in exactly its owner's bots list, and what is sent to the number of a client gets
to the client. -/
structure Hosting (w : World) : Prop where
  nodup : w.clients.Nodup
  /-- A list of bots holds every bot once. -/
  bots_nodup : ∀ i ∈ w.clients, (w.info i).isBot = false → (w.info i).bots.Nodup
  /-- It holds bots of this world. -/
  bots_mem : ∀ i ∈ w.clients, (w.info i).isBot = false →
    ∀ b ∈ (w.info i).bots, b ∈ w.clients ∧ (w.info b).isBot = true
  /-- Every bot has an owner. -/
  owned : ∀ b ∈ w.clients, (w.info b).isBot = true →
    ∃ i ∈ w.clients, (w.info i).isBot = false ∧ b ∈ (w.info i).bots
  /-- No bot has two. -/
  unique : ∀ i ∈ w.clients, ∀ j ∈ w.clients, (w.info i).isBot = false → (w.info j).isBot = false →
    ∀ b ∈ (w.info i).bots, b ∈ (w.info j).bots → i = j
  /-- The number of a human client leads back to it. -/
  routed : ∀ i ∈ w.clients, (w.info i).isBot = false → w.sendpacket (w.info i).clientnum = i

/-- A human client is among those in whose name it lays blocks. -/
theorem mem_hosted {info : Handle → ClientInfo} {i b : Handle} :
    b ∈ hosted info i ↔ (info i).isBot = false ∧ (b = i ∨ b ∈ (info i).bots) := by
  unfold hosted
  split_ifs with h
  · simp [h]
  · rw [List.mem_cons]
    simp [h]

theorem hosted_congr {info info' : Handle → ClientInfo}
    (h : ∀ i, (info i).isBot = (info' i).isBot ∧ (info i).bots = (info' i).bots) :
    hosted info = hosted info' := by
  funext i
  rw [hosted, hosted, (h i).1, (h i).2]

namespace Hosting

variable {w : World} (hw : Hosting w)
include hw

/-- The blocks of a sender are laid in the name of one client. -/
theorem owner_unique {i j b : Handle} (hi : i ∈ w.clients) (hj : j ∈ w.clients)
    (hbi : b ∈ hosted w.info i) (hbj : b ∈ hosted w.info j) : i = j := by
  obtain ⟨hhi, hbi⟩ := mem_hosted.mp hbi
  obtain ⟨hhj, hbj⟩ := mem_hosted.mp hbj
  rcases hbi with rfl | hbi <;> rcases hbj with rfl | hbj
  · rfl
  · exact absurd ((hw.bots_mem j hj hhj b hbj).2) (by simp [hhi])
  · exact absurd ((hw.bots_mem i hi hhi b hbi).2) (by simp [hhj])
  · exact hw.unique i hi j hj hhi hhj b hbi hbj

theorem hosted_nodup {i : Handle} (hi : i ∈ w.clients) : (hosted w.info i).Nodup := by
  unfold hosted
  split_ifs with h
  · exact List.nodup_nil
  · have hhuman : (w.info i).isBot = false := by simpa using h
    refine List.nodup_cons.mpr ⟨fun hmem => ?_, hw.bots_nodup i hi hhuman⟩
    exact absurd (hw.bots_mem i hi hhuman i hmem).2 (by simp [hhuman])

/-- No sender's block is laid twice. -/
theorem senders_nodup : (w.clients.flatMap (hosted w.info)).Nodup := by
  refine List.nodup_flatMap.mpr ⟨fun i hi => hw.hosted_nodup hi, ?_⟩
  refine List.Pairwise.imp_of_mem (fun {i j} hi hj hij => ?_) hw.nodup
  exact fun b hbi hbj => hij (hw.owner_unique hi hj hbi hbj)

/-- Every client is a sender. -/
theorem senders_perm : (w.clients.flatMap (hosted w.info)).Perm w.clients := by
  refine (List.perm_ext_iff_of_nodup hw.senders_nodup hw.nodup).mpr fun b => ?_
  rw [List.mem_flatMap]
  constructor
  · rintro ⟨i, hi, hb⟩
    obtain ⟨hhuman, rfl | hb⟩ := mem_hosted.mp hb
    · exact hi
    · exact (hw.bots_mem i hi hhuman b hb).1
  · intro hb
    cases hbot : (w.info b).isBot with
    | false => exact ⟨b, hb, mem_hosted.mpr ⟨hbot, Or.inl rfl⟩⟩
    | true =>
      obtain ⟨i, hi, hhuman, hbi⟩ := hw.owned b hb hbot
      exact ⟨i, hi, mem_hosted.mpr ⟨hhuman, Or.inr hbi⟩⟩

/-- What the senders need is what the clients need. -/
theorem sum_need {ch : Channel} {info : Handle → ClientInfo}
    (hget : ∀ i, ch.get (info i) = ch.get (w.info i))
    (hinfo : ∀ i, (info i).isBot = (w.info i).isBot ∧ (info i).bots = (w.info i).bots) :
    ((w.clients.flatMap (hosted info)).map fun b => need ch (info b)).sum =
      (w.clients.map fun i => need ch (w.info i)).sum := by
  have hneed (b : Handle) : need ch (info b) = need ch (w.info b) := by
    rw [need, need, hget]
  simp only [hosted_congr hinfo, hneed]
  exact (hw.senders_perm.map _).sum_eq

end Hosting

/-! ## The world state as a whole -/

theorem get_eq_nil_of_need {ch : Channel} {ci : ClientInfo} (h : need ch ci = 0) :
    ch.get ci = [] := by
  unfold need at h
  split_ifs at h with hnil
  · exact hnil
  · exact List.eq_nil_of_length_eq_zero (by omega)

theorem reserve_eq (ci : ClientInfo) : reserve ci = need positions ci + need messages ci := by
  have hpos : need positions ci = ci.position.length := by
    unfold need positions
    dsimp only
    split_ifs with h
    · rw [h, List.length_nil]
    · exact Nat.zero_add _
  rw [hpos]
  rfl

/-- The memory suffices for the blocks of both channels. -/
theorem sum_reserve (info : Handle → ClientInfo) (cs : List Handle) :
    (cs.map fun i => reserve (info i)).sum =
      (cs.map fun i => need positions (info i)).sum +
        (cs.map fun i => need messages (info i)).sum := by
  simp only [reserve_eq, List.sum_map_add]

/-- The clients as `buildworldstate` begins with them. -/
def begun (w : World) (i : Handle) : ClientInfo :=
  if i ∈ w.clients then { w.info i with overflow := 0, wsdata := none } else w.info i

/-- Nothing but the counter and the pointer has been reset. -/
theorem begun_frame {α : Type} {F : ClientInfo → α}
    (hF : ∀ (x : ClientInfo), F { x with overflow := 0, wsdata := none } = F x)
    (w : World) (i : Handle) : F (begun w i) = F (w.info i) := by
  unfold begun
  split_ifs
  · exact hF _
  · rfl

/-- The state in which the first phase begins. -/
def start (w : World) : State :=
  ⟨begun w, [], DataBuf.ofBytes (List.replicate
    (2 * (w.clients.map fun i => reserve (w.info i)).sum) 0), [], []⟩

/-- The blocks of all clients on one channel, and what is left of them in the buffer. -/
def phase (ch : Channel) (clients : List Handle) (mtu : Int) (s : State) : State :=
  sendpending ch clients (clients.foldl (addclient (addpending ch clients mtu)) s)

theorem buildworldstate_eq (servermtu : Int) (w : World) :
    ∃ mtu, buildworldstate servermtu w =
      if (w.clients.map fun i => reserve (w.info i)).sum = 0 then start w
      else phase messages w.clients mtu (phase positions w.clients mtu (start w)) :=
  ⟨_, rfl⟩

theorem laidBlocks_congr {ch : Channel} {info info' : Handle → ClientInfo}
    (h : ∀ i, (info i).isBot = (info' i).isBot ∧ (info i).bots = (info' i).bots)
    (hget : ∀ i, ch.get (info i) = ch.get (info' i))
    (hnum : ∀ i, (info i).clientnum = (info' i).clientnum) (cs : List Handle) :
    laidBlocks ch info cs = laidBlocks ch info' cs := by
  have hblock : blockOf ch info = blockOf ch info' := by
    funext o b
    exact blockOf_congr (hget b) (hnum b) o
  rw [laidBlocks, laidBlocks, hosted_congr h, hblock]

/-- The first phase begins with an empty buffer that has room for all blocks. -/
theorem laid_start {w : World} (hw : Hosting w) {budget : Nat}
    (hbudget : budget ≤ (w.clients.map fun i => reserve (w.info i)).sum) :
    Laid w.sendpacket positions w.clients (start w) (start w) [] [] budget where
  routed c hc hhuman := by
    have hnum : (begun w c).clientnum = (w.info c).clientnum := begun_frame (fun _ => rfl) w c
    have hbot : (begun w c).isBot = (w.info c).isBot := begun_frame (fun _ => rfl) w c
    show w.sendpacket (begun w c).clientnum = c
    rw [hnum]
    exact hw.routed c hc (hbot ▸ hhuman)
  written := rfl
  bytes_ne b hb := absurd hb List.not_mem_nil
  room := by
    show 2 * (0 + budget) ≤ (List.replicate _ _).length
    rw [List.length_replicate]
    omega
  window c hc := by
    refine .none (fun b hb => absurd hb List.not_mem_nil) ?_
    simp only [State.inBuffer, start, begun, if_pos hc]
    rfl
  cut _ _ _ hx := absurd hx List.not_mem_nil
  within p hp := absurd hp List.not_mem_nil
  sent _ _ _ := rfl
  other _ _ _ := rfl
  static _ := ⟨rfl, rfl, rfl⟩

/-- On a channel the groups `groups` are delivered: a client is sent one packet for each
group in which there is a block of somebody else. -/
structure Delivers (ch : Channel) (w : World) (s : State) (groups : List (List Block)) : Prop where
  /-- All blocks are laid, in the order of the clients. -/
  flatten : groups.flatten = laidBlocks ch w.info w.clients
  /-- Up to rotation a group holds the blocks of the other senders. -/
  rotated : ∀ c ∈ w.clients, ∀ g ∈ groups,
    others c g ~r g.filter fun b => b.sender ∉ hosted w.info c
  delivered_eq : ∀ c ∈ w.clients, (w.info c).isBot = false →
    delivered w.sendpacket s ch.chan c = packetsOf c groups

/-- A block is the one that its sender has queued, laid in the name of its owner. -/
theorem mem_laidBlocks {ch : Channel} {info : Handle → ClientInfo} {cs : List Handle} {b : Block}
    (hb : b ∈ laidBlocks ch info cs) :
    b.owner ∈ cs ∧ b.sender ∈ hosted info b.owner ∧ b.bytes = block ch (info b.sender) := by
  obtain ⟨i, hi, hb⟩ := List.mem_flatMap.mp hb
  obtain ⟨j, hj, hb⟩ := List.mem_flatMap.mp hb
  unfold blockOf at hb
  split_ifs at hb
  · exact absurd hb List.not_mem_nil
  · rw [List.mem_singleton.mp hb]
    exact ⟨hi, hj, rfl⟩

/-- The blocks that are laid are those of the senders that have queued something. -/
theorem map_sender_laidBlocks (ch : Channel) (info : Handle → ClientInfo) (cs : List Handle) :
    (laidBlocks ch info cs).map Block.sender =
      (cs.flatMap (hosted info)).filter fun i => ch.get (info i) ≠ [] := by
  have hone (o : Handle) (bs : List Handle) : (bs.flatMap (blockOf ch info o)).map Block.sender =
      bs.filter fun i => ch.get (info i) ≠ [] := by
    induction bs with
    | nil => rfl
    | cons b bs ih =>
      rw [List.flatMap_cons, List.map_append, ih, List.filter_cons, blockOf]
      by_cases h : ch.get (info b) = [] <;> simp [h]
  induction cs with
  | nil => rfl
  | cons c cs ih =>
    rw [laidBlocks, List.flatMap_cons, List.map_append, hone, List.flatMap_cons,
      List.filter_append, ← ih, laidBlocks]

/-- What the invariant says at the end of a phase that began with the queues of `w`. -/
theorem Laid.delivers {ch : Channel} {w : World} (hw : Hosting w) {s₀ s : State}
    {groups : List (List Block)} {budget : Nat}
    (h : Laid w.sendpacket ch w.clients s₀ s groups [] budget)
    (hflatten : groups.flatten = laidBlocks ch w.info w.clients)
    (hbot : ∀ i, (s₀.info i).isBot = (w.info i).isBot)
    (hnone : ∀ c, delivered w.sendpacket s₀ ch.chan c = []) {s' : State}
    (hs' : ∀ c, delivered w.sendpacket s' ch.chan c = delivered w.sendpacket s ch.chan c) :
    Delivers ch w s' groups where
  flatten := hflatten
  rotated c hc g hg := by
    obtain ⟨pre, own, post, hcut⟩ := h.cut c hc g hg
    have hiff (b : Block) (hb : b ∈ g) : b.owner ≠ c ↔ b.sender ∉ hosted w.info c := by
      obtain ⟨howner, hsender, -⟩ := mem_laidBlocks (hflatten ▸ List.mem_flatten_of_mem hg hb)
      refine not_congr ⟨fun hbc => hbc ▸ hsender, fun hbc => ?_⟩
      exact hw.owner_unique howner hc hsender hbc
    rw [← List.filter_congr fun b hb => decide_eq_decide.mpr (hiff b hb)]
    exact hcut.others_isRotated
  delivered_eq c hc hhuman := by
    rw [hs', h.sent c hc ((hbot c).trans hhuman), hnone, List.nil_append]

/-- The two phases, one after the other. -/
theorem phases_deliver {w : World} (hw : Hosting w) (mtu : Int) :
    let s := phase messages w.clients mtu (phase positions w.clients mtu (start w))
    (∃ groups, Delivers positions w s groups) ∧ ∃ groups, Delivers messages w s groups := by
  have hch₁ := lawful_positions
  have hch₂ := lawful_messages
  -- the fields of the clients in the two states in which a phase begins
  have hbegun {α : Type} {F : ClientInfo → α}
      (hF : ∀ (x : ClientInfo), F { x with overflow := 0, wsdata := none } = F x) (i : Handle) :
      F ((start w).info i) = F (w.info i) := begun_frame hF w i
  have hafter {α : Type} {F : ClientInfo → α} (hclear : ∀ x, F (positions.clear x) = F x)
      (hws : ∀ (x : ClientInfo) (p : Option Nat) (n : Nat),
        F { x with wsdata := p, wslen := n } = F x) (i : Handle) :
      F ((phase positions w.clients mtu (start w)).info i) = F ((start w).info i) := by
    rw [phase, sendpending_info, phase_frame hclear hws]
  have hinfo₁ (i : Handle) : ((start w).info i).isBot = (w.info i).isBot ∧
      ((start w).info i).bots = (w.info i).bots :=
    ⟨hbegun (F := ClientInfo.isBot) (fun _ => rfl) i, hbegun (F := ClientInfo.bots) (fun _ => rfl) i⟩
  have hlaid₁ := laid_start hw (sum_reserve w.info w.clients).ge
  rw [← hw.sum_need (hbegun (fun _ => rfl)) hinfo₁] at hlaid₁
  obtain ⟨groups₁, hlaid₁, hflat₁⟩ := laid_phase hch₁ hw.nodup mtu
    (by rw [hosted_congr hinfo₁]; exact hw.senders_nodup) hlaid₁
  set s₁ := phase positions w.clients mtu (start w) with hs₁
  have hinfo₂ (i : Handle) : (s₁.info i).isBot = (w.info i).isBot ∧
      (s₁.info i).bots = (w.info i).bots :=
    ⟨(hafter (F := ClientInfo.isBot) (fun _ => rfl) (fun _ _ _ => rfl) i).trans (hinfo₁ i).1,
      (hafter (F := ClientInfo.bots) (fun _ => rfl) (fun _ _ _ => rfl) i).trans (hinfo₁ i).2⟩
  have hnum₂ (i : Handle) : (s₁.info i).clientnum = (w.info i).clientnum :=
    (hafter (F := ClientInfo.clientnum) (fun _ => rfl) (fun _ _ _ => rfl) i).trans
      (hbegun (F := ClientInfo.clientnum) (fun _ => rfl) i)
  have hget₂ (i : Handle) : messages.get (s₁.info i) = messages.get (w.info i) :=
    (hafter (F := ClientInfo.messages) (fun _ => rfl) (fun _ _ _ => rfl) i).trans
      (hbegun (F := ClientInfo.messages) (fun _ => rfl) i)
  have hlaid₂ : Laid w.sendpacket messages w.clients s₁ s₁ [] []
      ((w.clients.map fun i => need messages (w.info i)).sum + 0) := hlaid₁.next
  rw [← hw.sum_need hget₂ hinfo₂] at hlaid₂
  obtain ⟨groups₂, hlaid₂, hflat₂⟩ := laid_phase hch₂ hw.nodup mtu
    (by rw [hosted_congr hinfo₂]; exact hw.senders_nodup) hlaid₂
  constructor
  · refine ⟨groups₁, hlaid₁.delivers hw ?_ (fun i => (hinfo₁ i).1) (fun _ => rfl) fun c => ?_⟩
    · rw [hflat₁]
      exact laidBlocks_congr hinfo₁ (hbegun (fun _ => rfl)) (hbegun (fun _ => rfl)) _
    · exact hlaid₂.other c 0 (by decide)
  · refine ⟨groups₂, hlaid₂.delivers hw ?_ (fun i => (hinfo₂ i).1) (fun c => ?_) fun _ => rfl⟩
    · rw [hflat₂]
      exact laidBlocks_congr hinfo₂ hget₂ hnum₂ _
    · exact hlaid₁.other c 1 (by decide)

/-- With nothing reserved nothing is sent, and there are no blocks. -/
theorem start_delivers {w : World}
    (hzero : (w.clients.map fun i => reserve (w.info i)).sum = 0) (hw : Hosting w) (ch : Channel)
    (hneed : ∀ ci, reserve ci = 0 → ch.get ci = []) : Delivers ch w (start w) [] where
  flatten := by
    have hnone : (laidBlocks ch w.info w.clients).map Block.sender = [] := by
      rw [map_sender_laidBlocks, List.filter_eq_nil_iff]
      intro i hi
      have hmem := hw.senders_perm.mem_iff.mp hi
      have hi := List.sum_eq_zero_iff_forall_eq_nat.mp hzero _ (List.mem_map_of_mem hmem)
      simpa using hneed _ hi
    exact (List.map_eq_nil_iff.mp hnone).symm
  rotated _ _ _ hg := absurd hg List.not_mem_nil
  delivered_eq _ _ _ := rfl

/-- What is queued is delivered, whether or not there is anything. -/
theorem exists_delivers {w : World} (hw : Hosting w) (servermtu : Int) {ch : Channel}
    (hch : ch = positions ∨ ch = messages) :
    ∃ groups, Delivers ch w (buildworldstate servermtu w) groups := by
  obtain ⟨mtu, hbuild⟩ := buildworldstate_eq servermtu w
  rw [hbuild]
  split_ifs with hzero
  · refine ⟨[], start_delivers hzero hw ch fun ci hci => ?_⟩
    rw [reserve_eq] at hci
    rcases hch with rfl | rfl
    · exact get_eq_nil_of_need (by omega)
    · exact get_eq_nil_of_need (by omega)
  · obtain ⟨hp, hm⟩ := phases_deliver hw mtu
    rcases hch with rfl | rfl
    · exact hp
    · exact hm

end WorldState

end Zuckerserv
