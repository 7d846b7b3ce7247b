import Mathlib.Tactic.MkIffOfInductiveProp
import QpidRecovery.Recovery.CopyObjects
import QpidRecovery.Recovery.Urls

/-! Bridges follow their links: where `copyBridges` creates the bridges of a
broker that is recovered, or of a link that is rerouted. -/
namespace QpidRecovery

variable {Id : Type}

def LinkInfo.dest (l : LinkInfo Id) : Address := (l.host, l.port)

def LinkObject.dest (j : LinkObject) : Address := (j.host, j.port)

namespace RecoveryManager

open KeyedList

/-- A stored bridge, the link it is on and the link object that carries it from
`newsrc`. A change of destination moves the links to the first address to
the second one. -/
@[mk_iff] structure Follows (oldsrc newsrc : Text) (changedst : Option (Address × Address))
    (i : BridgeInfo Id) (l : LinkInfo Id) (j : LinkObject) : Prop where
  src : i.brokerurl = oldsrc
  linkid : l.objectid = i.linkid
  linksrc : l.brokerurl = oldsrc
  olddst : ∀ change ∈ changedst, l.dest = change.1
  newsrc : j.brokerurl = newsrc
  newdst : j.dest = (changedst.map Prod.snd).getD l.dest

section Spec
variable [DecidableEq Id]

instance (oldsrc newsrc : Text) (changedst : Option (Address × Address)) (i : BridgeInfo Id)
    (l : LinkInfo Id) (j : LinkObject) : Decidable (Follows oldsrc newsrc changedst i l j) :=
  decidable_of_iff' _ (follows_iff oldsrc newsrc changedst i l j)

/-- The stored bridges with a link and a link object to follow, in their order. -/
def followers (links : List (LinkInfo Id)) (bridges : List (BridgeInfo Id))
    (linkobjlist : List LinkObject) (oldsrc newsrc : Text)
    (changedst : Option (Address × Address)) : List (BridgeInfo Id) :=
  bridges.filter fun i => ∃ l ∈ links, ∃ j ∈ linkobjlist, Follows oldsrc newsrc changedst i l j

/-- Each of these bridges is created once, on a link object that its own link
leads to, and nothing else is. -/
structure BridgesFollow (links : List (LinkInfo Id)) (bridges : List (BridgeInfo Id))
    (linkobjlist : List LinkObject) (oldsrc newsrc : Text)
    (changedst : Option (Address × Address)) (calls : List RecoveryCall) : Prop where
  once : (followers links bridges linkobjlist oldsrc newsrc changedst).Nodup
  created : List.Forall₂ (fun i call => ∃ l ∈ links, ∃ j ∈ linkobjlist,
      Follows oldsrc newsrc changedst i l j ∧ call = .createBridge j i.copyTo ∧
      ∀ l' ∈ links, l'.objectid = i.linkid → l'.brokerurl = oldsrc → l' = l)
    (followers links bridges linkobjlist oldsrc newsrc changedst) calls

end Spec

/-- The creations of bridges among the calls. -/
def bridgeCalls (calls : List RecoveryCall) : List RecoveryCall :=
  calls.filter fun
    | .createBridge _ _ => true
    | _ => false

section CopyBridges
variable [DecidableEq Id] (links : List (LinkInfo Id)) (linkobjlist : List LinkObject)
  (oldsrc newsrc : Text) (changedst : Option (Address × Address))

/-- The body of the loop over the bridges. -/
def copyBridge (i : BridgeInfo Id) : Option RecoveryCall :=
  if i.brokerurl ≠ oldsrc then none
  else (links.find? fun l => l.objectid = i.linkid ∧ l.brokerurl = i.brokerurl).bind fun link =>
    if changedst.any fun change => change.1 ≠ link.dest then none
    else (linkobjlist.find? fun j =>
        j.brokerurl = newsrc ∧ j.dest = (changedst.map Prod.snd).getD link.dest).map fun j =>
      .createBridge j i.copyTo

/-- Comparing urls is comparing addresses. -/
theorem copyBridges_eq (bridges : List (BridgeInfo Id)) :
    copyBridges links bridges linkobjlist oldsrc newsrc
        (changedst.map fun change => (change.1.url, change.2.url)) =
      bridges.filterMap (copyBridge links linkobjlist oldsrc newsrc changedst) := by
  rw [List.filterMap_eq_flatMap_toList, copyBridges]
  apply congrArg (bridges.flatMap ·)
  funext i
  unfold copyBridge
  split
  · rfl
  · cases links.find? fun l => l.objectid = i.linkid ∧ l.brokerurl = i.brokerurl with
    | none => rfl
    | some link =>
        have hLink : link.getLinkDestUrl = link.dest.url := rfl
        have hFilter : ((changedst.map fun change => (change.1.url, change.2.url)).any fun change =>
            decide (change.1 ≠ link.getLinkDestUrl)) =
            changedst.any fun change => decide (change.1 ≠ link.dest) := by
          cases changedst with
          | none => rfl
          | some change => simp [hLink, Address.url_inj]
        have hTarget : ((changedst.map fun change => (change.1.url, change.2.url)).map
            Prod.snd).getD link.getLinkDestUrl =
            ((changedst.map Prod.snd).getD link.dest).url := by
          cases changedst with
          | none => rfl
          | some change => rfl
        have hObject : ∀ j : LinkObject, linkObjectDest j = j.dest.url := fun _ => rfl
        simp only [hFilter, hTarget, hObject, Address.url_inj, Option.bind_some]
        split
        · rfl
        · cases linkobjlist.find? fun j =>
              j.brokerurl = newsrc ∧ j.dest = (changedst.map Prod.snd).getD link.dest with
          | none => rfl
          | some j => rfl

variable {links linkobjlist oldsrc newsrc changedst}

/-- The search by id and url finds the link of a bridge. -/
theorem find?_link {i : BridgeInfo Id} {l : LinkInfo Id}
    (hLinks : Unique LinkInfo.toObjectInfo links) (hl : l ∈ links) (hId : l.objectid = i.linkid)
    (hUrl : l.brokerurl = i.brokerurl) :
    (links.find? fun l => l.objectid = i.linkid ∧ l.brokerurl = i.brokerurl) = some l := by
  cases hFind : links.find? fun l => l.objectid = i.linkid ∧ l.brokerurl = i.brokerurl with
  | none =>
      have hNo := List.find?_eq_none.mp hFind l hl
      simp [hId, hUrl] at hNo
  | some l' =>
      have hFound := List.find?_some hFind
      simp only [decide_eq_true_eq] at hFound
      have hKey : l'.toObjectInfo = l.toObjectInfo :=
        congrArg₂ ObjectInfo.mk (hFound.1.trans hId.symm) (hFound.2.trans hUrl.symm)
      rw [hLinks.eq_of_key (List.mem_of_find?_eq_some hFind) hl hKey]

/-- A bridge with something to follow is created on the first link object. -/
theorem copyBridge_of_follows {i : BridgeInfo Id} {l : LinkInfo Id} {j : LinkObject}
    (hLinks : Unique LinkInfo.toObjectInfo links) (hl : l ∈ links) (hj : j ∈ linkobjlist)
    (h : Follows oldsrc newsrc changedst i l j) :
    ∃ j' ∈ linkobjlist, Follows oldsrc newsrc changedst i l j' ∧
      copyBridge links linkobjlist oldsrc newsrc changedst i =
        some (.createBridge j' i.copyTo) := by
  have hLink := find?_link hLinks hl h.linkid (h.linksrc.trans h.src.symm)
  have hKept : ¬ changedst.any (fun change => change.1 ≠ l.dest) = true := by
    intro hAny
    obtain ⟨change, hChange, hNe⟩ := (Option.any_eq_true _ _).mp hAny
    exact of_decide_eq_true hNe (h.olddst change hChange).symm
  have hSome : (linkobjlist.find? fun j => j.brokerurl = newsrc ∧
      j.dest = (changedst.map Prod.snd).getD l.dest).isSome :=
    List.find?_isSome.mpr ⟨j, hj, decide_eq_true ⟨h.newsrc, h.newdst⟩⟩
  obtain ⟨j', hFind⟩ := Option.isSome_iff_exists.mp hSome
  have hFound := List.find?_some hFind
  simp only [decide_eq_true_eq] at hFound
  refine ⟨j', List.mem_of_find?_eq_some hFind, ?_, ?_⟩
  · exact { h with newsrc := hFound.1, newdst := hFound.2 }
  · rw [copyBridge, if_neg (not_not.mpr h.src), hLink, Option.bind_some, if_neg hKept, hFind]
    rfl

/-- A bridge that is created has something to follow. -/
theorem follows_of_copyBridge {i : BridgeInfo Id} {call : RecoveryCall}
    (h : copyBridge links linkobjlist oldsrc newsrc changedst i = some call) :
    ∃ l ∈ links, ∃ j ∈ linkobjlist, Follows oldsrc newsrc changedst i l j := by
  unfold copyBridge at h
  split at h
  · cases h
  · next hSrc =>
      obtain ⟨l, hLink, h⟩ := Option.bind_eq_some_iff.mp h
      split at h
      · cases h
      · next hKept =>
          obtain ⟨j, hObject, _⟩ := Option.map_eq_some_iff.mp h
          have hFoundLink := List.find?_some hLink
          have hFoundObject := List.find?_some hObject
          simp only [decide_eq_true_eq] at hFoundLink hFoundObject
          have hUrl : i.brokerurl = oldsrc := not_not.mp hSrc
          refine ⟨l, List.mem_of_find?_eq_some hLink, j, List.mem_of_find?_eq_some hObject, ?_⟩
          exact
            { src := hUrl
              linkid := hFoundLink.1
              linksrc := hFoundLink.2.trans hUrl
              olddst := by
                intro change hChange
                by_contra hNe
                apply hKept
                rw [Option.any_eq_true]
                exact ⟨change, hChange, decide_eq_true (Ne.symm hNe)⟩
              newsrc := hFoundObject.1
              newdst := hFoundObject.2 }

variable (linkobjlist oldsrc newsrc changedst)

/-- The join of the three lists. -/
theorem copyBridges_follow {bridges : List (BridgeInfo Id)}
    (hLinks : Unique LinkInfo.toObjectInfo links)
    (hBridges : Unique BridgeInfo.toObjectInfo bridges) :
    BridgesFollow links bridges linkobjlist oldsrc newsrc changedst
      (copyBridges links bridges linkobjlist oldsrc newsrc
        (changedst.map fun change => (change.1.url, change.2.url))) := by
  rw [copyBridges_eq]
  constructor
  · exact hBridges.of_map.filter _
  · apply forall₂_filterMap
    · intro i _ hFollows
      obtain ⟨l, hl, j, hj, h⟩ := of_decide_eq_true hFollows
      obtain ⟨j', hj', h', hCall⟩ := copyBridge_of_follows hLinks hl hj h
      refine ⟨_, hCall, l, hl, j', hj', h', rfl, ?_⟩
      intro l' hl' hId hUrl
      apply hLinks.eq_of_key hl' hl
      exact congrArg₂ ObjectInfo.mk (hId.trans h.linkid.symm) (hUrl.trans h.linksrc.symm)
    · intro i _ hNone
      cases hCall : copyBridge links linkobjlist oldsrc newsrc changedst i with
      | none => rfl
      | some call => exact absurd (follows_of_copyBridge hCall) (of_decide_eq_false hNone)

end CopyBridges

section BridgeCalls

@[simp] theorem bridgeCalls_append (calls more : List RecoveryCall) :
    bridgeCalls (calls ++ more) = bridgeCalls calls ++ bridgeCalls more :=
  List.filter_append _ _

@[simp] theorem bridgeCalls_contact (broker : Text) (n : Nat) (calls : List RecoveryCall) :
    bridgeCalls (.contact broker n :: calls) = bridgeCalls calls := rfl

@[simp] theorem bridgeCalls_create (broker : Text) (o : Operation) (calls : List RecoveryCall) :
    bridgeCalls (.create broker o :: calls) = bridgeCalls calls := rfl

@[simp] theorem bridgeCalls_creates {α : Type} (broker : Text) (f : α → Operation) (l : List α) :
    bridgeCalls (l.map fun j => .create broker (f j)) = [] := by
  induction l with
  | nil => rfl
  | cons j l ih =>
      rw [List.map_cons, bridgeCalls_create, ih]

/-- No bridge is created with the links. -/
theorem bridgeCalls_copyLinks (url : Text) (reply : BrokerReply) (links : List (LinkInfo Id)) :
    bridgeCalls (copyLinks url reply links).1 = [] := by
  induction links with
  | nil => rfl
  | cons j links ih =>
      cases hLink : copyLink url reply j with
      | none =>
          rw [copyLinks, hLink]
          rfl
      | some calls =>
          have hOne : bridgeCalls calls = [] := by
            rcases copyLink_calls hLink with rfl | rfl
            · rfl
            · rfl
          simp only [copyLinks, hLink, bridgeCalls_append, hOne, ih, List.nil_append]

variable [DecidableEq Id] (links : List (LinkInfo Id)) (bridges : List (BridgeInfo Id))
  (linkobjlist : List LinkObject) (oldsrc newsrc : Text) (changedst : Option (Text × Text))

theorem bridgeCalls_copyBridges :
    bridgeCalls (copyBridges links bridges linkobjlist oldsrc newsrc changedst) =
      copyBridges links bridges linkobjlist oldsrc newsrc changedst := by
  apply List.filter_eq_self.mpr
  intro call hCall
  obtain ⟨i, _, hBridge⟩ := List.mem_flatMap.mp hCall
  split at hBridge
  · cases hBridge
  · split at hBridge
    · cases hBridge
    · dsimp only at hBridge
      split at hBridge
      · cases hBridge
      · split at hBridge
        · cases hBridge
        · rw [List.mem_singleton.mp hBridge]

/-- What is stored for other brokers plays no role. -/
theorem copyBridges_filter :
    copyBridges (links.filter fun l => l.brokerurl = oldsrc)
        (bridges.filter fun i => i.brokerurl = oldsrc) linkobjlist oldsrc newsrc changedst =
      copyBridges links bridges linkobjlist oldsrc newsrc changedst := by
  induction bridges with
  | nil => rfl
  | cons i bridges ih =>
      by_cases hSrc : i.brokerurl = oldsrc
      · have hFind : ((links.filter fun l => l.brokerurl = oldsrc).find? fun l =>
            l.objectid = i.linkid ∧ l.brokerurl = i.brokerurl) =
            links.find? fun l => l.objectid = i.linkid ∧ l.brokerurl = i.brokerurl := by
          rw [List.find?_filter]
          congr 1
          funext l
          by_cases hUrl : l.brokerurl = oldsrc
          · simp [hUrl]
          · simp [hUrl, hSrc]
        rw [List.filter_cons_of_pos (by simpa using hSrc)]
        unfold copyBridges at ih ⊢
        rw [List.flatMap_cons, List.flatMap_cons, ih, hFind]
      · rw [List.filter_cons_of_neg (by simpa using hSrc), ih]
        unfold copyBridges
        rw [List.flatMap_cons, if_pos hSrc, List.nil_append]

end BridgeCalls

section Uses
variable [DecidableEq Id] {rm : RecoveryManager Id} {reply : BrokerReply}

/-- A recovery creates the bridges of the failed broker. -/
theorem copyObjects_bridges {failip backupip : IPString} {failport backupport : UInt32}
    {calls : List RecoveryCall} {r : Int} (hReply : reply.brokerobjects = 1)
    (h : rm.copyObjects failip failport backupip backupport reply = some (calls, r)) :
    bridgeCalls calls = copyBridges rm.links rm.bridges reply.linkobjects
      (IPPortToUrl failip failport) (IPPortToUrl backupip backupport) none := by
  have hThread := (copyObjects_eq_some.mp h).1
  rw [copyObjectsCalls_eq hReply] at hThread
  dsimp only at hThread
  split at hThread
  · obtain rfl := (Prod.mk.inj hThread).1
    simp only [List.cons_append, bridgeCalls_contact, bridgeCalls_append, bridgeCalls_creates,
      bridgeCalls_copyLinks, bridgeCalls_copyBridges, List.nil_append, copyBridges_filter]
  · cases hThread

/-- A reroute that returns 0 creates those of the link from `src`. -/
theorem reroute_bridges {srcip oldip newip : IPString} {srcport oldport newport : UInt32}
    {rm' : RecoveryManager Id} {calls : List RecoveryCall}
    (h : rm.reroute srcip srcport oldip oldport newip newport reply = some (rm', calls, 0)) :
    bridgeCalls calls = copyBridges rm.links rm.bridges reply.linkobjects
      (IPPortToUrl srcip srcport) (IPPortToUrl srcip srcport)
      (some (IPPortToUrl oldip oldport, IPPortToUrl newip newport)) := by
  have hStore : (rm.addBroker srcip srcport).links = rm.links ∧
      (rm.addBroker srcip srcport).bridges = rm.bridges := by
    unfold addBroker
    split
    · exact ⟨rfl, rfl⟩
    · exact ⟨rfl, rfl⟩
  unfold reroute at h
  dsimp only at h
  split at h
  · cases h
  · split at h
    · cases h
    · split at h
      · cases h
      · cases h
        rw [bridgeCalls_contact, bridgeCalls_create, bridgeCalls_copyBridges, hStore.1, hStore.2]

/-- Bridges follow their links, in a recovery and in a reroute. -/
theorem bridges_follow_links (hLinks : Unique LinkInfo.toObjectInfo rm.links)
    (hBridges : Unique BridgeInfo.toObjectInfo rm.bridges) :
    (∀ linkobjlist oldsrc newsrc changedst,
      BridgesFollow rm.links rm.bridges linkobjlist oldsrc newsrc changedst
        (copyBridges rm.links rm.bridges linkobjlist oldsrc newsrc
          (changedst.map fun change => (change.1.url, change.2.url)))) ∧
    (∀ failip failport backupip backupport reply calls r, reply.brokerobjects = 1 →
      rm.copyObjects failip failport backupip backupport reply = some (calls, r) →
      BridgesFollow rm.links rm.bridges reply.linkobjects (IPPortToUrl failip failport)
        (IPPortToUrl backupip backupport) none (bridgeCalls calls)) ∧
    ∀ srcip srcport oldip oldport newip newport reply rm' calls,
      rm.reroute srcip srcport oldip oldport newip newport reply = some (rm', calls, 0) →
      BridgesFollow rm.links rm.bridges reply.linkobjects (IPPortToUrl srcip srcport)
        (IPPortToUrl srcip srcport) (some ((oldip.bytes, oldport), (newip.bytes, newport)))
        (bridgeCalls calls) := by
  refine ⟨?_, ?_, ?_⟩
  · intro linkobjlist oldsrc newsrc changedst
    exact copyBridges_follow linkobjlist oldsrc newsrc changedst hLinks hBridges
  · intro failip failport backupip backupport reply calls r hReply h
    rw [copyObjects_bridges hReply h]
    exact copyBridges_follow reply.linkobjects _ _ none hLinks hBridges
  · intro srcip srcport oldip oldport newip newport reply rm' calls h
    rw [reroute_bridges h]
    exact copyBridges_follow reply.linkobjects _ _
      (some ((oldip.bytes, oldport), (newip.bytes, newport))) hLinks hBridges

end Uses

/-- One bridge on the link to `127.0.0.1:5672`. -/
def oneBridge : RecoveryManager Nat :=
  { oneOfEachKind localhost.bytes with
    bridges := [⟨⟨5, IPPortToUrl localhost 5672⟩, 4, [115], [100], [107], true, false⟩] }

/-- Link objects of two brokers, with two destinations. -/
def linkObjects : BrokerReply where
  brokerobjects := 1
  linkobjects :=
    [⟨IPPortToUrl localhost 5672, localhost.bytes, 5672⟩,
      ⟨IPPortToUrl localhost 5673, localhost.bytes, 5672⟩,
      ⟨IPPortToUrl localhost 5672, localhost.bytes, 5673⟩]
  unreachable := fun _ => false

theorem bridges_follow_oneBridge :
    (∃ calls r, oneBridge.copyObjects localhost 5672 localhost 5673 linkObjects = some (calls, r) ∧
      BridgesFollow oneBridge.links oneBridge.bridges linkObjects.linkobjects
        (IPPortToUrl localhost 5672) (IPPortToUrl localhost 5673) none (bridgeCalls calls) ∧
      (bridgeCalls calls).length = 1) ∧
    ∃ rm' calls,
      oneBridge.reroute localhost 5672 localhost 5672 localhost 5673 linkObjects =
        some (rm', calls, 0) ∧
      BridgesFollow oneBridge.links oneBridge.bridges linkObjects.linkobjects
        (IPPortToUrl localhost 5672) (IPPortToUrl localhost 5672)
        (some ((localhost.bytes, 5672), (localhost.bytes, 5673))) (bridgeCalls calls) ∧
      (bridgeCalls calls).length = 1 := by
  have hLinks : Unique LinkInfo.toObjectInfo oneBridge.links := List.nodup_singleton _
  have hBridges : Unique BridgeInfo.toObjectInfo oneBridge.bridges := List.nodup_singleton _
  have hFollow := bridges_follow_links hLinks hBridges
  constructor
  · exact ⟨_, _, rfl, hFollow.2.1 _ _ _ _ linkObjects _ _ rfl rfl, rfl⟩
  · exact ⟨_, _, rfl, hFollow.2.2 _ _ _ _ _ _ linkObjects _ _ rfl, rfl⟩

end RecoveryManager

end QpidRecovery
