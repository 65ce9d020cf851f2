import Rapids.Lib.Run
import Rapids.Masternode.Broadcast

/-!
# Rapids.Masternode.BroadcastSound

Which entries the list of masternodes holds, in every run of broadcasts, pings, blocks
and removals.

What a step does to the list is said once: **an entry afterwards is one from before,
perhaps changed, of the same collateral and with the same mark, or the one that is added**
(`Evolves`). So the entries are always under their own outpoints. That the outpoint of an
added entry is a collateral of its key is not checked (any output of its transaction
will do), and a mark stays when the block that set it is disconnected; so these hold in
runs whose steps meet a condition.
-/

namespace Rapids.Masternode

open Rapids.Lib OrdMap Rapids.Chain

/-! ### What a step does to the list -/

namespace MasternodeMan

variable {W : MasternodeCode} {E : MasternodeEnv} {m m' m'' : MasternodeMan} {new : Option CMasternode}

/-- Every entry of the second list is one of the first, of the same collateral and with
the same mark, or it is new. -/
def Evolves (m m' : MasternodeMan) (new : Option CMasternode) : Prop :=
  ∀ k mn', m'.find k = some mn' →
    (∃ mn, m.find k = some mn ∧ mn'.vin = mn.vin ∧ mn'.fCollateralSpent = mn.fCollateralSpent) ∨
      (new = some mn' ∧ k = mn'.vin.prevout ∧ mn'.fCollateralSpent = false)

theorem Evolves.of_eq (h : m'.mapMasternodes = m.mapMasternodes) : Evolves m m' new := by
  intro k mn' hf
  rw [find, h] at hf
  exact .inl ⟨mn', hf, rfl, rfl⟩

theorem Evolves.trans (h : Evolves m m' none) (h' : Evolves m' m'' new) : Evolves m m'' new := by
  intro k mn'' hf
  rcases h' k mn'' hf with ⟨mn', hf', hvin, hspent⟩ | hnew
  · rcases h k mn' hf' with ⟨mn, hmn, hvin', hspent'⟩ | ⟨hnone, -⟩
    · exact .inl ⟨mn, hmn, hvin.trans hvin', hspent.trans hspent'⟩
    · cases hnone
  · exact .inr hnew

theorem find_modify (m : MasternodeMan) (o k : OutPoint) (f : CMasternode → CMasternode) :
    (m.modify o f).find k = if k = o then (m.find o).map f else m.find k := by
  rw [modify]
  cases hf : m.find o with
  | none =>
    split_ifs with hk
    · rw [hk, hf]
      rfl
    · rfl
  | some mn =>
    rw [find, find?_insert, Option.map_some]
    split_ifs <;> rfl

theorem evolves_modify {o : OutPoint} {f : CMasternode → CMasternode}
    (hf : ∀ mn, (f mn).vin = mn.vin ∧ (f mn).fCollateralSpent = mn.fCollateralSpent) :
    Evolves m (m.modify o f) new := by
  intro k mn' hfind
  rw [find_modify] at hfind
  split_ifs at hfind with hk
  · obtain ⟨mn, hmn, rfl⟩ := Option.map_eq_some_iff.mp hfind
    exact .inl ⟨mn, hk ▸ hmn, hf mn⟩
  · exact .inl ⟨mn', hfind, rfl, rfl⟩

theorem evolves_remove {o : OutPoint} : Evolves m (m.remove o) new := by
  intro k mn' hfind
  rw [find, remove] at hfind
  rw [find?_erase] at hfind
  split_ifs at hfind
  exact .inl ⟨mn', hfind, rfl, rfl⟩

theorem evolves_acceptPing {p : MasternodePing} {mn : CMasternode} :
    Evolves m (acceptPing W E p mn m).2 new := by
  refine (evolves_modify (o := p.vin.prevout) (f := fun mn => { mn with lastPing := p })
    fun mn => ⟨rfl, rfl⟩).trans (Evolves.of_eq ?_)
  rw [acceptPing]

theorem evolves_checkPing (fRequireAvailable : Bool) (p : MasternodePing) :
    Evolves m (checkPing W E fRequireAvailable p m).2 new := by
  rw [checkPing]
  by_cases htime : (!pingInTime E p) = true
  · rw [if_pos htime]
    exact Evolves.of_eq rfl
  · rw [if_neg htime]
    cases m.find p.vin.prevout with
    | none => exact Evolves.of_eq rfl
    | some mn =>
      dsimp only
      split_ifs
      · exact Evolves.of_eq rfl
      · exact Evolves.of_eq rfl
      · exact Evolves.of_eq rfl
      · exact Evolves.of_eq rfl
      · exact Evolves.of_eq rfl
      · exact evolves_acceptPing

theorem evolves_processPing (new : Option CMasternode) (p : MasternodePing) : Evolves m (processPing W E p m) new := by
  rw [processPing]
  split_ifs
  · exact Evolves.of_eq rfl
  · exact Evolves.of_eq rfl
  · exact Evolves.trans (Evolves.of_eq rfl) (evolves_checkPing true p)

theorem evolves_updateFromNewBroadcast (mnb : MasternodeBroadcast) :
    Evolves m (updateFromNewBroadcast W E mnb m) new := by
  rw [updateFromNewBroadcast]
  refine (evolves_modify (o := mnb.vin.prevout) (f := fun mn => { mn with
    pubKeyMasternode := mnb.pubKeyMasternode
    pubKeyCollateralAddress := mnb.pubKeyCollateralAddress
    sigTime := mnb.sigTime
    vchSig := mnb.vchSig
    protocolVersion := mnb.protocolVersion
    addr := mnb.addr }) fun mn => ⟨rfl, rfl⟩).trans ?_
  have hping : ∀ m₁ : MasternodeMan,
      Evolves m₁ (if mnb.lastPing.isNull then (true, m₁) else checkPing W E false mnb.lastPing m₁).2 none := by
    intro m₁
    split_ifs
    · exact Evolves.of_eq rfl
    · exact evolves_checkPing false mnb.lastPing
  refine (hping _).trans ?_
  split_ifs
  all_goals first
    | exact Evolves.of_eq rfl
    | exact (evolves_modify (f := fun mn => { mn with lastPing := mnb.lastPing })
        fun mn => ⟨rfl, rfl⟩).trans (Evolves.of_eq rfl)

theorem evolves_checkAndUpdate (mnb : MasternodeBroadcast) : Evolves m (checkAndUpdate W E mnb m).2 new := by
  rw [checkAndUpdate]
  by_cases hcheck : (!checkMessage W E mnb m) = true
  · rw [if_pos hcheck]
    exact Evolves.of_eq rfl
  · rw [if_neg hcheck]
    cases m.find mnb.vin.prevout with
    | none => exact Evolves.of_eq rfl
    | some mn =>
      dsimp only
      split_ifs
      · exact Evolves.of_eq rfl
      · exact evolves_updateFromNewBroadcast mnb
      · exact Evolves.of_eq rfl

/-- What adding a broadcast does: nothing is added, or it is, and its collateral is
unspent. -/
theorem addBroadcast_cases (W : MasternodeCode) (E : MasternodeEnv) (coins : Coins)
    (mnb : MasternodeBroadcast) (m : MasternodeMan) :
    ((addBroadcast W E coins mnb m).added = none ∧
        (addBroadcast W E coins mnb m).man.mapMasternodes = m.mapMasternodes) ∨
      ((coins.accessCoin mnb.vin.prevout).isSpent = false ∧
        (addBroadcast W E coins mnb m).added = some { mnb with fCollateralSpent := false } ∧
        (addBroadcast W E coins mnb m).man.mapMasternodes =
          m.mapMasternodes.insert mnb.vin.prevout { mnb with fCollateralSpent := false }) := by
  rw [addBroadcast]
  split_ifs with hspent hagain htime
  · exact .inl ⟨rfl, rfl⟩
  · exact .inl ⟨rfl, rfl⟩
  · exact .inl ⟨rfl, rfl⟩
  · rw [Bool.not_eq_true] at hspent
    rw [add]
    split_ifs
    · exact .inl ⟨rfl, rfl⟩
    · exact .inl ⟨rfl, rfl⟩
    · exact .inr ⟨hspent, rfl, rfl⟩

theorem evolves_addBroadcast (coins : Coins) (mnb : MasternodeBroadcast) :
    Evolves m (addBroadcast W E coins mnb m).man (addBroadcast W E coins mnb m).added := by
  rcases addBroadcast_cases W E coins mnb m with ⟨-, heq⟩ | ⟨-, hadded, heq⟩
  · exact Evolves.of_eq heq
  · rw [hadded]
    intro k mn' hf
    rw [find, heq, find?_insert] at hf
    split_ifs at hf with hk
    · cases hf
      exact .inr ⟨rfl, hk, rfl⟩
    · exact .inl ⟨mn', hf, rfl, rfl⟩

/-- What a broadcast does: the list evolves, and what is added is the broadcast, whose
transaction has an output that is a collateral of its key and whose own output is unspent. -/
theorem processBroadcast_spec (W : MasternodeCode) (E : MasternodeEnv) (coins : Coins)
    (mnb : MasternodeBroadcast) (m : MasternodeMan) :
    Evolves m (processBroadcast W E coins mnb m).man (processBroadcast W E coins mnb m).added ∧
      ∀ mn, (processBroadcast W E coins mnb m).added = some mn →
        mn = { mnb with fCollateralSpent := false } ∧ isInputAssociatedWithPubkey W E mnb = true ∧
          (coins.accessCoin mnb.vin.prevout).isSpent = false := by
  have hadd : ∀ m₁ : MasternodeMan, ∀ mn, (addBroadcast W E coins mnb m₁).added = some mn →
      mn = { mnb with fCollateralSpent := false } ∧ (coins.accessCoin mnb.vin.prevout).isSpent = false := by
    intro m₁ mn hmn
    rcases addBroadcast_cases W E coins mnb m₁ with ⟨hnone, -⟩ | ⟨hspent, hadded, -⟩
    · rw [hnone] at hmn
      cases hmn
    · rw [hadded] at hmn
      exact ⟨(Option.some.inj hmn).symm, hspent⟩
  rw [processBroadcast]
  split_ifs
  swap
  · refine ⟨Evolves.of_eq rfl, fun mn hmn => ?_⟩
    cases hmn
  rw [checkBroadcast]
  have hupdate : Evolves m (checkAndUpdate W E mnb (m.remember W mnb)).2 none :=
    Evolves.trans (Evolves.of_eq rfl) (evolves_checkAndUpdate mnb)
  generalize (checkAndUpdate W E mnb (m.remember W mnb)) = r at hupdate ⊢
  split_ifs with hcheck hassoc
  · refine ⟨hupdate, fun mn hmn => ?_⟩
    cases hmn
  · refine ⟨hupdate, fun mn hmn => ?_⟩
    cases hmn
  · rw [Bool.not_eq_true, Bool.not_eq_false'] at hassoc
    rw [checkInputsAndAdd]
    split_ifs
    · refine ⟨hupdate, fun mn hmn => ?_⟩
      cases hmn
    · refine ⟨hupdate, fun mn hmn => ?_⟩
      cases hmn
    · cases r.2.find mnb.vin.prevout with
      | none =>
        refine ⟨hupdate.trans (evolves_addBroadcast coins mnb), fun mn hmn => ?_⟩
        obtain ⟨heq, hspent⟩ := hadd _ mn hmn
        exact ⟨heq, hassoc, hspent⟩
      | some old =>
        dsimp only
        split_ifs
        · refine ⟨hupdate, fun mn hmn => ?_⟩
          cases hmn
        · refine ⟨hupdate.trans (evolves_remove.trans (evolves_addBroadcast coins mnb)), fun mn hmn => ?_⟩
          obtain ⟨heq, hspent⟩ := hadd _ mn hmn
          exact ⟨heq, hassoc, hspent⟩

theorem evolves_checkAndRemove (new : Option CMasternode) (forceExpiredRemoval : Bool) :
    Evolves m (checkAndRemove W E forceExpiredRemoval m) new := by
  intro k mn' hf
  rw [find, checkAndRemove] at hf
  rw [find?_filter] at hf
  exact .inl ⟨mn', (Option.filter_eq_some_iff.mp hf).1, rfl, rfl⟩

/-- Marking the inputs of transactions: an entry is as before, but for the mark, and is
marked newly only if its outpoint is among the inputs. -/
theorem find_checkSpentCollaterals {vtx : List Transaction} {k : OutPoint} {mn' : CMasternode}
    (hf : (checkSpentCollaterals vtx m).find k = some mn') :
    ∃ mn, m.find k = some mn ∧ mn'.vin = mn.vin ∧
      (mn'.fCollateralSpent = true → mn.fCollateralSpent = true ∨
        ∃ i ∈ vtx.flatMap Transaction.vin, i.prevout = k) := by
  rw [checkSpentCollaterals] at hf
  generalize vtx.flatMap Transaction.vin = ins at hf ⊢
  induction ins generalizing m with
  | nil => exact ⟨mn', hf, rfl, .inl⟩
  | cons i rest ih =>
    rw [List.foldl_cons] at hf
    obtain ⟨mn₁, hf1, hvin, hmark⟩ := ih hf
    rw [find_modify] at hf1
    split_ifs at hf1 with hk
    · obtain ⟨mn, hmn, rfl⟩ := Option.map_eq_some_iff.mp hf1
      exact ⟨mn, hk ▸ hmn, hvin, fun _ => .inr ⟨i, .head _, hk.symm⟩⟩
    · refine ⟨mn₁, hf1, hvin, fun hspent => ?_⟩
      rcases hmark hspent with hold | ⟨x, hx, hxk⟩
      · exact .inl hold
      · exact .inr ⟨x, List.mem_cons_of_mem i hx, hxk⟩

end MasternodeMan

/-! ### Runs -/

/-- The list, the blocks of the active chain and the coins of its tip. -/
structure RegistryNode where
  man : MasternodeMan
  chain : List (List Transaction)
  pcoinsTip : Coins

/-- What happens: a message comes, a block is connected or disconnected (with the coins
after it), or old entries are removed. -/
inductive RegistryEvent
  | broadcast (E : MasternodeEnv) (mnb : MasternodeBroadcast)
  | ping (E : MasternodeEnv) (p : MasternodePing)
  | connect (vtx : List Transaction) (coins : Coins)
  | disconnect (coins : Coins)
  | checkAndRemove (E : MasternodeEnv) (forceExpiredRemoval : Bool)

namespace RegistryNode

variable (W : MasternodeCode)

def step (n : RegistryNode) : RegistryEvent → RegistryNode
  | .broadcast E mnb => { n with man := (n.man.processBroadcast W E n.pcoinsTip mnb).man }
  | .ping E p => { n with man := n.man.processPing W E p }
  | .connect vtx coins =>
    { man := n.man.checkSpentCollaterals vtx, chain := n.chain ++ [vtx], pcoinsTip := coins }
  | .disconnect coins => { n with chain := n.chain.dropLast, pcoinsTip := coins }
  | .checkAndRemove E forceExpiredRemoval => { n with man := n.man.checkAndRemove W E forceExpiredRemoval }

def start : RegistryNode := ⟨.empty, [], ∅⟩

/-- The node after a run. -/
def run (es : List RegistryEvent) : RegistryNode := es.foldl (step W) start

/-- A transaction of the active chain spends the outpoint. -/
def SpentOnChain (n : RegistryNode) (o : OutPoint) : Prop :=
  ∃ vtx ∈ n.chain, ∃ i ∈ vtx.flatMap Transaction.vin, i.prevout = o

/-- **An entry is marked spent only while its outpoint is spent** on the active chain. -/
def MarkedSpent (n : RegistryNode) : Prop :=
  ∀ k mn, n.man.find k = some mn → mn.fCollateralSpent = true → n.SpentOnChain k

/-- **The entry's own output** is unspent, of the collateral's value, and pays its key. -/
def Backed (coins : Coins) (nHeight : Int) (mn : CMasternode) : Prop :=
  (coins.accessCoin mn.vin.prevout).isSpent = false ∧
    (coins.accessCoin mn.vin.prevout).out.nValue = masternodeCollateral nHeight ∧
    (coins.accessCoin mn.vin.prevout).out.scriptPubKey = W.payee mn.pubKeyCollateralAddress

/-- The entry that a step adds. -/
def added (n : RegistryNode) : RegistryEvent → Option CMasternode
  | .broadcast E mnb => (n.man.processBroadcast W E n.pcoinsTip mnb).added
  | _ => none

/-- The height of the chain at a message. -/
def heightAt : RegistryEvent → Int
  | .broadcast E _ => E.chainHeight
  | _ => 0

/-- What a step adds is backed, and the marks are right after it. -/
def Sound (n : RegistryNode) (e : RegistryEvent) : Prop :=
  (∀ mn, n.added W e = some mn → Backed W n.pcoinsTip (heightAt e) mn) ∧ (n.step W e).MarkedSpent

/-- **The condition on a step**: a broadcast whose transaction has a collateral of its key
has that as its own output, or one that is spent; a block that is disconnected spends no
outpoint of an entry that is marked. -/
def Orderly (n : RegistryNode) : RegistryEvent → Prop
  | .broadcast E mnb => MasternodeMan.isInputAssociatedWithPubkey W E mnb = true →
      (n.pcoinsTip.accessCoin mnb.vin.prevout).isSpent = false →
        (n.pcoinsTip.accessCoin mnb.vin.prevout).out.nValue = masternodeCollateral E.chainHeight ∧
          (n.pcoinsTip.accessCoin mnb.vin.prevout).out.scriptPubKey = W.payee mnb.pubKeyCollateralAddress
  | .disconnect _ => ∀ vtx, n.chain.getLast? = some vtx → ∀ i ∈ vtx.flatMap Transaction.vin, ∀ mn,
      n.man.find i.prevout = some mn → mn.fCollateralSpent = false
  | _ => True

/-- Entries are under their own outpoints. -/
def Keyed (n : RegistryNode) : Prop := ∀ k mn, n.man.find k = some mn → mn.vin.prevout = k

variable {W} {n : RegistryNode}

theorem Keyed.evolves (hk : n.Keyed) {m' : MasternodeMan} {new : Option CMasternode}
    (h : MasternodeMan.Evolves n.man m' new) : ∀ k mn, m'.find k = some mn → mn.vin.prevout = k := by
  intro k mn' hf
  rcases h k mn' hf with ⟨mn, hmn, hvin, -⟩ | ⟨-, heq, -⟩
  · rw [hvin]
    exact hk k mn hmn
  · exact heq.symm

theorem Keyed.step (hk : n.Keyed) (e : RegistryEvent) : (n.step W e).Keyed := by
  cases e with
  | broadcast E mnb => exact hk.evolves (MasternodeMan.processBroadcast_spec W E n.pcoinsTip mnb n.man).1
  | ping E p => exact hk.evolves (MasternodeMan.evolves_processPing none p)
  | connect vtx coins =>
    intro k mn' hf
    obtain ⟨mn, hmn, hvin, -⟩ := MasternodeMan.find_checkSpentCollaterals hf
    rw [hvin]
    exact hk k mn hmn
  | disconnect coins => exact hk
  | checkAndRemove E force => exact hk.evolves (MasternodeMan.evolves_checkAndRemove none force)

theorem MarkedSpent.evolves (hm : n.MarkedSpent) {m' : MasternodeMan} {new : Option CMasternode}
    (h : MasternodeMan.Evolves n.man m' new) :
    ∀ k mn, m'.find k = some mn → mn.fCollateralSpent = true → n.SpentOnChain k := by
  intro k mn' hf hmark
  rcases h k mn' hf with ⟨mn, hmn, -, hspent⟩ | ⟨-, -, hfresh⟩
  · exact hm k mn hmn (hspent ▸ hmark)
  · rw [hfresh] at hmark
    cases hmark

theorem MarkedSpent.step (hm : n.MarkedSpent) {e : RegistryEvent} (he : n.Orderly W e) :
    (n.step W e).MarkedSpent := by
  cases e with
  | broadcast E mnb => exact hm.evolves (MasternodeMan.processBroadcast_spec W E n.pcoinsTip mnb n.man).1
  | ping E p => exact hm.evolves (MasternodeMan.evolves_processPing none p)
  | connect vtx coins =>
    intro k mn' hf hmark
    obtain ⟨mn, hmn, -, hwhy⟩ := MasternodeMan.find_checkSpentCollaterals hf
    rcases hwhy hmark with hold | ⟨i, hi, hik⟩
    · obtain ⟨vtx', hvtx', hspends⟩ := hm k mn hmn hold
      exact ⟨vtx', List.mem_append_left [vtx] hvtx', hspends⟩
    · exact ⟨vtx, List.mem_append_right n.chain (List.mem_singleton.mpr rfl), i, hi, hik⟩
  | disconnect coins =>
    intro k mn hf hmark
    obtain ⟨vtx, hvtx, i, hi, hik⟩ := hm k mn hf hmark
    refine ⟨vtx, ?_, i, hi, hik⟩
    -- the block is not the one that goes: that one spends no marked outpoint
    rcases List.eq_nil_or_concat n.chain with hnil | ⟨init, last, hsplit⟩
    · rw [hnil] at hvtx
      cases hvtx
    · rw [List.concat_eq_append] at hsplit
      show vtx ∈ n.chain.dropLast
      rw [hsplit] at hvtx ⊢
      rw [List.dropLast_concat]
      rcases List.mem_append.mp hvtx with hin | hlast
      · exact hin
      · obtain rfl := List.mem_singleton.mp hlast
        have hfresh := he vtx (by rw [hsplit, List.getLast?_concat]) i hi mn (hik ▸ hf)
        rw [hfresh] at hmark
        cases hmark
  | checkAndRemove E force => exact hm.evolves (MasternodeMan.evolves_checkAndRemove none force)

theorem MarkedSpent.sound (hm : n.MarkedSpent) {e : RegistryEvent} (he : n.Orderly W e) : n.Sound W e := by
  refine ⟨fun mn hmn => ?_, hm.step he⟩
  cases e with
  | broadcast E mnb =>
    obtain ⟨rfl, hassoc, hspent⟩ := (MasternodeMan.processBroadcast_spec W E n.pcoinsTip mnb n.man).2 mn hmn
    obtain ⟨hvalue, hscript⟩ := he hassoc hspent
    exact ⟨hspent, hvalue, hscript⟩
  | ping E p => cases hmn
  | connect vtx coins => cases hmn
  | disconnect coins => cases hmn
  | checkAndRemove E force => cases hmn

end RegistryNode

/-- **The list of masternodes**: entries are under their own outpoints, so no two share
one, after every run; and in every run whose steps meet the condition each added entry is
backed by its own output and each mark is right. -/
theorem masternode_registry_sound (W : MasternodeCode) (es : List RegistryEvent) :
    (∀ k k' mn mn', (RegistryNode.run W es).man.find k = some mn →
        (RegistryNode.run W es).man.find k' = some mn' → mn.vin.prevout = mn'.vin.prevout → k = k') ∧
      (Along (RegistryNode.step W) (RegistryNode.Orderly W) RegistryNode.start es →
        Along (RegistryNode.step W) (RegistryNode.Sound W) RegistryNode.start es) := by
  have hstart : RegistryNode.start.MarkedSpent := by
    intro k mn hf
    cases hf
  refine ⟨fun k k' mn mn' hf hf' hsame => ?_, fun hes => hes.imp
    (fun n e hm he => RegistryNode.MarkedSpent.step hm he)
    (fun n e hm he => RegistryNode.MarkedSpent.sound hm he) hstart⟩
  have hkeyed : (RegistryNode.run W es).Keyed := by
    refine List.foldlRecOn es (RegistryNode.step W) ?_ fun n hk e _ => hk.step e
    intro k mn hf
    cases hf
  rw [← hkeyed k mn hf, hsame, hkeyed k' mn' hf']

/-! ### Examples -/

/-- Every key and signature is good. -/
def masternodeCode : MasternodeCode where
  mainNet := false
  regTest := false
  keyID := fun _ => Vector.replicate 20 0
  hashBroadcast := fun sigTime pubKey => 1000 * pubKey.length + sigTime.toNat
  hashPing := fun p => p.sigTime.toNat
  checkSignature := fun mnb => mnb.vchSig.length = 1
  checkPing := fun _ _ => true

/-- The transaction of the collaterals: a collateral, and a small output. -/
def collateralTx : Transaction :=
  ⟨5, [], [⟨5000 * coin, masternodeCode.payee [7]⟩, ⟨1, [0x51]⟩]⟩

def collateralCoins : Coins :=
  ((∅ : Coins).insert ⟨5, 0⟩ ⟨⟨5000 * coin, masternodeCode.payee [7]⟩, 1, false, false⟩).insert ⟨5, 1⟩
    ⟨⟨1, [0x51]⟩, 1, false, false⟩

def masternodeEnv : MasternodeEnv where
  fLiteMode := false
  blockchainSynced := true
  now := 5000
  activeProtocol := 0
  isWithinDepth := fun _ => true
  getTransaction := fun hash => if hash = 5 then some collateralTx else none
  confirmationTime := fun _ => none
  isOurs := fun _ => false
  lockMain := true
  chainHeight := 20

/-- A broadcast for an output of the transaction. -/
def broadcastOf (n : Nat) (vchSig : List UInt8) : MasternodeBroadcast :=
  ⟨⟨⟨5, n⟩, []⟩, 0, ⟨[], 1⟩, [7], [8], vchSig, 1, 4000, 0, ⟨⟨⟨5, n⟩, []⟩, 0, 1, 4900, [], 1⟩, false⟩

def spendCollateral : List Transaction := [⟨6, [⟨⟨5, 0⟩, []⟩], []⟩]

/-- A masternode comes, its collateral is spent, it is removed, and the block that spent
it is disconnected. -/
theorem masternode_registry_sound_removed :
    Along (RegistryNode.step masternodeCode) (RegistryNode.Sound masternodeCode) RegistryNode.start
      [.connect [] collateralCoins, .broadcast masternodeEnv (broadcastOf 0 [1]),
        .connect spendCollateral ∅, .checkAndRemove masternodeEnv false, .disconnect collateralCoins] := by
  refine (masternode_registry_sound masternodeCode _).2 ⟨trivial, fun _ _ => ?_, trivial, trivial, ?_, trivial⟩
  · decide +kernel
  · intro vtx _ i _ mn hf
    have hempty : (((((RegistryNode.start.step masternodeCode (.connect [] collateralCoins)).step masternodeCode
        (.broadcast masternodeEnv (broadcastOf 0 [1]))).step masternodeCode
        (.connect spendCollateral ∅)).step masternodeCode
        (.checkAndRemove masternodeEnv false)).man.mapMasternodes.entries.length) = 0 := by
      decide +kernel
    have hmem := mem_entries_iff.mpr hf
    rw [List.length_eq_zero_iff.mp hempty] at hmem
    cases hmem

/-- The small output of a transaction whose other output is a collateral. -/
theorem masternode_registry_otherOutput :
    ¬ ∀ W es, Along (RegistryNode.step W) (RegistryNode.Sound W) RegistryNode.start es := by
  intro hall
  obtain ⟨-, ⟨hbacked, -⟩, -⟩ := hall masternodeCode
    [.connect [] collateralCoins, .broadcast masternodeEnv (broadcastOf 1 [1])]
  obtain ⟨-, hvalue, -⟩ := hbacked { broadcastOf 1 [1] with fCollateralSpent := false } (by decide +kernel)
  revert hvalue
  decide +kernel

/-- A mark that stays when the block that spent the collateral is disconnected. -/
example : ((RegistryNode.run masternodeCode [.connect [] collateralCoins,
    .broadcast masternodeEnv (broadcastOf 0 [1]), .connect spendCollateral ∅,
    .disconnect collateralCoins]).man.find ⟨5, 0⟩).map CMasternode.fCollateralSpent = some true := by
  decide +kernel

end Rapids.Masternode
