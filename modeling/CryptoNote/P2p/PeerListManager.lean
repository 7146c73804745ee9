import CryptoNote.Lib.MultiIndex

/-!
# Peer lists

`PeerlistManager` (`P2p/PeerListManager.cpp`) keeps the peers a node knows of in
three containers, each unique by network address: the white list of peers it has
talked to and the gray list of peers it was told about, both ordered by
`last_seen`, and the anchor list of peers it connected out to, ordered by
`first_seen`.  Every addition first asks `is_ip_allowed` and does nothing for a
refused address; an insertion into the white or gray list trims it from its
oldest end to `P2P_LOCAL_WHITE_PEERLIST_LIMIT` or `P2P_LOCAL_GRAY_PEERLIST_LIMIT`.

Over every sequence of calls after `init`, the lists stay within their limits,
hold only allowed addresses and never share an address between white and gray.
From any such state, a peer just seen moves to the newest end of the white list
and leaves the gray one, and `merge_peerlist` loses a gossiped or a gray address
only when the gray list ends full.
-/

set_option autoImplicit false

namespace CryptoNote

open MultiIndex

abbrev PeerIdType := UInt64

structure NetworkAddress where
  ip : UInt32
  port : UInt32
  deriving DecidableEq, Repr

structure PeerlistEntry where
  adr : NetworkAddress
  id : PeerIdType
  lastSeen : UInt64
  deriving DecidableEq, Repr

structure AnchorPeerlistEntry where
  adr : NetworkAddress
  id : PeerIdType
  firstSeen : Int64
  deriving DecidableEq, Repr

def hostToNetwork (n : UInt32) : UInt32 :=
  (n <<< (24 : UInt32)) ||| ((n &&& (0xff00 : UInt32)) <<< (8 : UInt32)) |||
    ((n &&& (0xff0000 : UInt32)) >>> (8 : UInt32)) ||| (n >>> (24 : UInt32))

def networkToHost (n : UInt32) : UInt32 := hostToNetwork n

structure Ipv4Address where
  value : UInt32

/-- 127.0.0.0/8 -/
def Ipv4Address.isLoopback (addr : Ipv4Address) : Bool :=
  (addr.value &&& (0xff000000 : UInt32)) == (127 : UInt32) <<< (24 : UInt32)

/-- 10.0.0.0/8, 172.16.0.0/12 and 192.168.0.0/16; the `static_cast<int>`s of the
source compare the same 32 bits. -/
def Ipv4Address.isPrivate (addr : Ipv4Address) : Bool :=
  (addr.value &&& (0xff000000 : UInt32)) == (10 : UInt32) <<< (24 : UInt32) ||
    (addr.value &&& (0xfff00000 : UInt32)) == ((172 : UInt32) <<< (24 : UInt32) ||| (16 : UInt32) <<< (16 : UInt32)) ||
    (addr.value &&& (0xffff0000 : UInt32)) == ((192 : UInt32) <<< (24 : UInt32) ||| (168 : UInt32) <<< (16 : UInt32))

def P2P_LOCAL_WHITE_PEERLIST_LIMIT : Nat := 1000

def P2P_LOCAL_GRAY_PEERLIST_LIMIT : Nat := 5000

/-- `peers_indexed`: unique by address, ordered by `last_seen`. -/
abbrev PeersIndexed := Container PeerlistEntry.adr fun e : PeerlistEntry => e.lastSeen.toNat

/-- `anchor_peers_indexed`: unique by address, ordered by `first_seen`. -/
abbrev AnchorPeersIndexed := Container AnchorPeerlistEntry.adr fun e : AnchorPeerlistEntry => e.firstSeen.toInt

/-- `Peerlist::get`: the `i`-th entry from the newest. -/
def Peerlist.get (peers : PeersIndexed) (i : Nat) : Option PeerlistEntry := peers.elements.reverse[i]?

/-- The lists and the flag of `init`; `m_whitePeerlist` and `m_grayPeerlist` are
views of the white and gray lists with their limits. -/
structure PeerlistManager where
  allowLocalIp : Bool
  peersGray : PeersIndexed
  peersWhite : PeersIndexed
  peersAnchor : AnchorPeersIndexed

namespace PeerlistManager

/-- The constructor's empty lists; `m_allow_local_ip` stays unset until `init`. -/
def empty : PeerlistManager := ⟨false, .empty, .empty, .empty⟩

variable (m : PeerlistManager)

def init (allowLocalIp : Bool) : PeerlistManager := { m with allowLocalIp := allowLocalIp }

def isIpAllowed (ip : UInt32) : Bool :=
  let addr : Ipv4Address := ⟨networkToHost ip⟩
  -- never allow loopback ip
  if addr.isLoopback then false
  else if !m.allowLocalIp && addr.isPrivate then false
  else true

-- 127.0.0.1 and 192.168.1.1 as they arrive in network byte order
example : (empty.init true).isIpAllowed 0x0100007f = false ∧ (empty.init false).isIpAllowed 0x0101a8c0 = false ∧
    (empty.init true).isIpAllowed 0x0101a8c0 = true := by decide

def trimWhitePeerlist : PeerlistManager :=
  { m with peersWhite := m.peersWhite.trim P2P_LOCAL_WHITE_PEERLIST_LIMIT }

def trimGrayPeerlist : PeerlistManager :=
  { m with peersGray := m.peersGray.trim P2P_LOCAL_GRAY_PEERLIST_LIMIT }

/-- A new address is inserted and the list trimmed; a known one has its record replaced. -/
def appendWithPeerWhite (ple : PeerlistEntry) : PeerlistManager :=
  if !m.isIpAllowed ple.adr.ip then m
  else
    { m with
      peersWhite := m.peersWhite.insertOrReplace P2P_LOCAL_WHITE_PEERLIST_LIMIT ple
      -- remove from gray list, if need
      peersGray := m.peersGray.eraseKey ple.adr }

def appendWithPeerGray (ple : PeerlistEntry) : PeerlistManager :=
  if !m.isIpAllowed ple.adr.ip then m
  else if (m.peersWhite.find ple.adr).isSome then m
  else { m with peersGray := m.peersGray.insertOrReplace P2P_LOCAL_GRAY_PEERLIST_LIMIT ple }

def appendWithPeerAnchor (ple : AnchorPeerlistEntry) : PeerlistManager :=
  if !m.isIpAllowed ple.adr.ip then m
  else
    match m.peersAnchor.find ple.adr with
    | none => { m with peersAnchor := m.peersAnchor.insert ple }
    | some _ => m

def mergePeerlist (outerBs : List PeerlistEntry) : PeerlistManager :=
  -- delete extra elements
  (outerBs.foldl appendWithPeerGray m).trimGrayPeerlist

/-- `set_peer_just_seen`, with `now` the `time(NULL)` of the call. -/
def setPeerJustSeen (peer : PeerIdType) (addr : NetworkAddress) (now : UInt64) : PeerlistManager :=
  m.appendWithPeerWhite ⟨addr, peer, now⟩

/-- The anchors in the order of `first_seen`, or `none` when there are none. -/
def getAndEmptyAnchorPeerlist : Option (List AnchorPeerlistEntry) × PeerlistManager :=
  if m.peersAnchor.elements.isEmpty then (none, m)
  else (some m.peersAnchor.elements, { m with peersAnchor := .empty })

def removeFromPeerAnchor (addr : NetworkAddress) : PeerlistManager :=
  { m with peersAnchor := m.peersAnchor.eraseKey addr }

def removeFromPeerGray (p : PeerlistEntry) : PeerlistManager :=
  { m with peersGray := m.peersGray.eraseKey p.adr }

def getWhitePeerByIndex (i : Nat) : Option PeerlistEntry := Peerlist.get m.peersWhite i

def getGrayPeerByIndex (i : Nat) : Option PeerlistEntry := Peerlist.get m.peersGray i

def getPeerlistFull : List AnchorPeerlistEntry × List PeerlistEntry × List PeerlistEntry :=
  (m.peersAnchor.elements.reverse, m.peersGray.elements.reverse, m.peersWhite.elements.reverse)

end PeerlistManager

inductive PeerlistCall where
  | mergePeerlist (outerBs : List PeerlistEntry)
  | removeFromPeerGray (p : PeerlistEntry)
  | appendWithPeerAnchor (ple : AnchorPeerlistEntry)
  | appendWithPeerWhite (ple : PeerlistEntry)
  | appendWithPeerGray (ple : PeerlistEntry)
  | setPeerJustSeen (peer : PeerIdType) (addr : NetworkAddress) (now : UInt64)
  | trimWhitePeerlist
  | trimGrayPeerlist
  | getAndEmptyAnchorPeerlist
  | removeFromPeerAnchor (addr : NetworkAddress)

namespace PeerlistManager

def call (m : PeerlistManager) : PeerlistCall → PeerlistManager
  | .mergePeerlist outerBs => m.mergePeerlist outerBs
  | .removeFromPeerGray p => m.removeFromPeerGray p
  | .appendWithPeerAnchor ple => m.appendWithPeerAnchor ple
  | .appendWithPeerWhite ple => m.appendWithPeerWhite ple
  | .appendWithPeerGray ple => m.appendWithPeerGray ple
  | .setPeerJustSeen peer addr now => m.setPeerJustSeen peer addr now
  | .trimWhitePeerlist => m.trimWhitePeerlist
  | .trimGrayPeerlist => m.trimGrayPeerlist
  | .getAndEmptyAnchorPeerlist => m.getAndEmptyAnchorPeerlist.2
  | .removeFromPeerAnchor addr => m.removeFromPeerAnchor addr

def run (m : PeerlistManager) (calls : List PeerlistCall) : PeerlistManager := calls.foldl call m

/-- A manager that some sequence of calls reaches after the constructor and `init`. -/
def Reachable (m : PeerlistManager) : Prop := ∃ allowLocalIp calls, m = (empty.init allowLocalIp).run calls

/-- What every call keeps: the limits, allowed addresses only, and no address both
white and gray. -/
structure Sound (m : PeerlistManager) : Prop where
  disjoint : ∀ w ∈ m.peersWhite.elements, ∀ g ∈ m.peersGray.elements, w.adr ≠ g.adr
  whiteBounded : m.peersWhite.size ≤ P2P_LOCAL_WHITE_PEERLIST_LIMIT
  grayBounded : m.peersGray.size ≤ P2P_LOCAL_GRAY_PEERLIST_LIMIT
  whiteAllowed : ∀ e ∈ m.peersWhite.elements, m.isIpAllowed e.adr.ip
  grayAllowed : ∀ e ∈ m.peersGray.elements, m.isIpAllowed e.adr.ip
  anchorAllowed : ∀ e ∈ m.peersAnchor.elements, m.isIpAllowed e.adr.ip

/-! ## One call -/

variable {m : PeerlistManager}

theorem sound_init (allowLocalIp : Bool) : (empty.init allowLocalIp).Sound where
  disjoint := by simp [empty, init]
  whiteBounded := by simp [empty, init, Container.size, P2P_LOCAL_WHITE_PEERLIST_LIMIT]
  grayBounded := by simp [empty, init, Container.size, P2P_LOCAL_GRAY_PEERLIST_LIMIT]
  whiteAllowed := by simp [empty, init]
  grayAllowed := by simp [empty, init]
  anchorAllowed := by simp [empty, init]

theorem Sound.trimWhitePeerlist (sound : m.Sound) : m.trimWhitePeerlist.Sound := by
  rw [PeerlistManager.trimWhitePeerlist, Container.trim_of_size_le sound.whiteBounded]
  exact sound

theorem Sound.trimGrayPeerlist (sound : m.Sound) : m.trimGrayPeerlist.Sound := by
  rw [PeerlistManager.trimGrayPeerlist, Container.trim_of_size_le sound.grayBounded]
  exact sound

theorem Sound.appendWithPeerWhite (sound : m.Sound) (ple : PeerlistEntry) : (m.appendWithPeerWhite ple).Sound := by
  unfold PeerlistManager.appendWithPeerWhite
  split
  · exact sound
  · rename_i allowed
    simp only [Bool.not_eq_eq_eq_not, Bool.not_true, Bool.not_eq_false] at allowed
    -- the white list gains `ple` at most, the gray list loses `ple`'s address
    have white : ∀ {w}, w ∈ (m.peersWhite.insertOrReplace P2P_LOCAL_WHITE_PEERLIST_LIMIT ple).elements →
        w ∈ m.peersWhite.elements ∨ w = ple := Container.mem_of_mem_insertOrReplace
    have gray : ∀ {g}, g ∈ (m.peersGray.eraseKey ple.adr).elements → g ∈ m.peersGray.elements ∧ g.adr ≠ ple.adr :=
      Container.mem_eraseKey.mp
    constructor
    · intro w hw g hg
      rcases white hw with old | rfl
      · exact sound.disjoint w old g (gray hg).1
      · exact (gray hg).2.symm
    · exact Container.size_insertOrReplace_le sound.whiteBounded ple
    · exact (Container.size_eraseKey_le _).trans sound.grayBounded
    · intro e he
      rcases white he with old | rfl
      · exact sound.whiteAllowed e old
      · exact allowed
    · exact fun e he => sound.grayAllowed e (gray he).1
    · exact sound.anchorAllowed

theorem Sound.appendWithPeerGray (sound : m.Sound) (ple : PeerlistEntry) : (m.appendWithPeerGray ple).Sound := by
  unfold PeerlistManager.appendWithPeerGray
  split
  · exact sound
  · rename_i allowed
    simp only [Bool.not_eq_eq_eq_not, Bool.not_true, Bool.not_eq_false] at allowed
    split
    · exact sound
    · rename_i notWhite
      -- only an address that is not white joins the gray list
      have fresh : ple.adr ∉ m.peersWhite.elements.map PeerlistEntry.adr :=
        Container.find_eq_none.mp (Option.not_isSome_iff_eq_none.mp notWhite)
      have gray : ∀ {g}, g ∈ (m.peersGray.insertOrReplace P2P_LOCAL_GRAY_PEERLIST_LIMIT ple).elements →
          g ∈ m.peersGray.elements ∨ g = ple := Container.mem_of_mem_insertOrReplace
      constructor
      · intro w hw g hg
        rcases gray hg with old | rfl
        · exact sound.disjoint w hw g old
        · exact fun same => fresh (same ▸ List.mem_map_of_mem hw)
      · exact sound.whiteBounded
      · exact Container.size_insertOrReplace_le sound.grayBounded ple
      · exact sound.whiteAllowed
      · intro e he
        rcases gray he with old | rfl
        · exact sound.grayAllowed e old
        · exact allowed
      · exact sound.anchorAllowed

theorem Sound.appendWithPeerAnchor (sound : m.Sound) (ple : AnchorPeerlistEntry) :
    (m.appendWithPeerAnchor ple).Sound := by
  unfold PeerlistManager.appendWithPeerAnchor
  split
  · exact sound
  · rename_i allowed
    simp only [Bool.not_eq_eq_eq_not, Bool.not_true, Bool.not_eq_false] at allowed
    split
    · refine { sound with anchorAllowed := fun e he => ?_ }
      rcases Container.mem_of_mem_insert he with old | rfl
      · exact sound.anchorAllowed e old
      · exact allowed
    · exact sound

theorem Sound.removeFromPeerGray (sound : m.Sound) (p : PeerlistEntry) : (m.removeFromPeerGray p).Sound where
  disjoint w hw g hg := sound.disjoint w hw g (Container.mem_eraseKey.mp hg).1
  whiteBounded := sound.whiteBounded
  grayBounded := (Container.size_eraseKey_le _).trans sound.grayBounded
  whiteAllowed := sound.whiteAllowed
  grayAllowed e he := sound.grayAllowed e (Container.mem_eraseKey.mp he).1
  anchorAllowed := sound.anchorAllowed

theorem Sound.removeFromPeerAnchor (sound : m.Sound) (addr : NetworkAddress) :
    (m.removeFromPeerAnchor addr).Sound :=
  { sound with anchorAllowed := fun e he => sound.anchorAllowed e (Container.mem_eraseKey.mp he).1 }

theorem Sound.getAndEmptyAnchorPeerlist (sound : m.Sound) : m.getAndEmptyAnchorPeerlist.2.Sound := by
  unfold PeerlistManager.getAndEmptyAnchorPeerlist
  split
  · exact sound
  · exact { sound with anchorAllowed := by simp }

theorem Sound.foldlAppendWithPeerGray (sound : m.Sound) (outerBs : List PeerlistEntry) :
    (outerBs.foldl PeerlistManager.appendWithPeerGray m).Sound := by
  induction outerBs generalizing m with
  | nil => exact sound
  | cons be rest ih => exact ih (sound.appendWithPeerGray be)

theorem Sound.call (sound : m.Sound) : ∀ c : PeerlistCall, (m.call c).Sound
  | .mergePeerlist outerBs => (sound.foldlAppendWithPeerGray outerBs).trimGrayPeerlist
  | .removeFromPeerGray p => sound.removeFromPeerGray p
  | .appendWithPeerAnchor ple => sound.appendWithPeerAnchor ple
  | .appendWithPeerWhite ple => sound.appendWithPeerWhite ple
  | .appendWithPeerGray ple => sound.appendWithPeerGray ple
  | .setPeerJustSeen peer addr now => sound.appendWithPeerWhite ⟨addr, peer, now⟩
  | .trimWhitePeerlist => sound.trimWhitePeerlist
  | .trimGrayPeerlist => sound.trimGrayPeerlist
  | .getAndEmptyAnchorPeerlist => sound.getAndEmptyAnchorPeerlist
  | .removeFromPeerAnchor addr => sound.removeFromPeerAnchor addr

/-! ## Whole runs -/

theorem Sound.run (sound : m.Sound) (calls : List PeerlistCall) : (m.run calls).Sound := by
  induction calls generalizing m with
  | nil => exact sound
  | cons c rest ih => exact ih (sound.call c)

theorem Reachable.sound (reached : m.Reachable) : m.Sound := by
  obtain ⟨allowLocalIp, calls, rfl⟩ := reached
  exact (sound_init allowLocalIp).run calls

/-- Over every sequence of calls after `init`, the white and gray lists keep within
their limits, every list holds allowed addresses only, and no address is both
white and gray. -/
theorem peerlistRun_sound (allowLocalIp : Bool) (calls : List PeerlistCall) :
    ((empty.init allowLocalIp).run calls).Sound :=
  (sound_init allowLocalIp).run calls

/-! ## A peer just seen -/

/-- From any reachable state, a peer seen later than every white entry goes to the
newest end of the white list, in place of its old record there and of its record
in the gray list; when the white list overflows, its oldest entry goes. -/
theorem setPeerJustSeen_newest (reached : m.Reachable) (peer : PeerIdType) (addr : NetworkAddress)
    (now : UInt64) (allowed : m.isIpAllowed addr.ip = true)
    (newest : ∀ e ∈ m.peersWhite.elements, e.lastSeen < now) :
    (m.setPeerJustSeen peer addr now).peersWhite.elements =
        trimFront P2P_LOCAL_WHITE_PEERLIST_LIMIT
          (m.peersWhite.elements.filter (fun e => e.adr ≠ addr) ++ [⟨addr, peer, now⟩]) ∧
      (m.setPeerJustSeen peer addr now).peersGray.elements = m.peersGray.elements.filter (fun e => e.adr ≠ addr) ∧
      (m.setPeerJustSeen peer addr now).getWhitePeerByIndex 0 = some ⟨addr, peer, now⟩ := by
  have sound := reached.sound
  have admitted : m.setPeerJustSeen peer addr now =
      { m with
        peersWhite := m.peersWhite.insertOrReplace P2P_LOCAL_WHITE_PEERLIST_LIMIT ⟨addr, peer, now⟩
        peersGray := m.peersGray.eraseKey addr } := by
    simp only [setPeerJustSeen, appendWithPeerWhite, allowed, Bool.not_true, Bool.false_eq_true, if_false]
  have white := Container.elements_insertOrReplace_of_lt sound.whiteBounded
    (x := ⟨addr, peer, now⟩) fun y hy => UInt64.lt_iff_toNat_lt.mp (newest y hy)
  rw [admitted]
  refine ⟨white, Container.elements_eraseKey addr, ?_⟩
  -- the trim keeps the last entry, which `Peerlist::get` reads first
  rw [getWhitePeerByIndex, Peerlist.get, white, trimFront_append_singleton (by decide)]
  simp

def seenThenGossip : List PeerlistCall :=
  [.setPeerJustSeen 7 ⟨0x04030201, 8080⟩ 100, .mergePeerlist [⟨⟨0x08070605, 8080⟩, 9, 50⟩]]

theorem seenThenGossip_setPeerJustSeen :
    ∃ m : PeerlistManager, m.Reachable ∧ m.isIpAllowed 0x08070605 = true ∧
      (∀ e ∈ m.peersWhite.elements, e.lastSeen < 200) ∧
      (m.setPeerJustSeen 9 ⟨0x08070605, 8080⟩ 200).peersWhite.elements =
          trimFront P2P_LOCAL_WHITE_PEERLIST_LIMIT
            (m.peersWhite.elements.filter (fun e => e.adr ≠ ⟨0x08070605, 8080⟩) ++ [⟨⟨0x08070605, 8080⟩, 9, 200⟩]) ∧
        (m.setPeerJustSeen 9 ⟨0x08070605, 8080⟩ 200).peersGray.elements =
          m.peersGray.elements.filter (fun e => e.adr ≠ ⟨0x08070605, 8080⟩) ∧
        (m.setPeerJustSeen 9 ⟨0x08070605, 8080⟩ 200).getWhitePeerByIndex 0 = some ⟨⟨0x08070605, 8080⟩, 9, 200⟩ :=
  have reached : ((empty.init false).run seenThenGossip).Reachable := ⟨false, seenThenGossip, rfl⟩
  ⟨_, reached, by decide, by decide, setPeerJustSeen_newest reached 9 ⟨0x08070605, 8080⟩ 200 (by decide) (by decide)⟩

/-! ## Merging a gossiped peer list -/

/-- What merging `outerBs` into `m` leaves in `merged`: the white and anchor lists
and the flag as they were; a gray list of old gray entries and gossiped ones, no
shorter than before, that holds every old gray address and every allowed gossiped
address that is not white, unless it ends full. -/
structure MergedFrom (m : PeerlistManager) (outerBs : List PeerlistEntry) (merged : PeerlistManager) : Prop where
  allowLocalIp : merged.allowLocalIp = m.allowLocalIp
  white : merged.peersWhite = m.peersWhite
  anchor : merged.peersAnchor = m.peersAnchor
  fromEither : ∀ g ∈ merged.peersGray.elements, g ∈ m.peersGray.elements ∨ g ∈ outerBs
  grows : m.peersGray.size ≤ merged.peersGray.size
  keeps : merged.peersGray.size = P2P_LOCAL_GRAY_PEERLIST_LIMIT ∨
    (∀ g ∈ m.peersGray.elements, g.adr ∈ merged.peersGray.elements.map PeerlistEntry.adr) ∧
      ∀ e ∈ outerBs, m.isIpAllowed e.adr.ip → e.adr ∉ m.peersWhite.elements.map PeerlistEntry.adr →
        e.adr ∈ merged.peersGray.elements.map PeerlistEntry.adr

theorem mergedFrom_skipped {outerBs : List PeerlistEntry}
    (skipped : ∀ e ∈ outerBs, m.isIpAllowed e.adr.ip = true → e.adr ∈ m.peersWhite.elements.map PeerlistEntry.adr) :
    MergedFrom m outerBs m where
  allowLocalIp := rfl
  white := rfl
  anchor := rfl
  fromEither _ hg := .inl hg
  grows := le_rfl
  keeps := .inr ⟨fun _ hg => List.mem_map_of_mem hg, fun e he allowed notWhite =>
    absurd (skipped e he allowed) notWhite⟩

theorem Sound.mergedFrom_appendWithPeerGray (sound : m.Sound) (ple : PeerlistEntry) :
    MergedFrom m [ple] (m.appendWithPeerGray ple) := by
  unfold PeerlistManager.appendWithPeerGray
  split
  · rename_i refused
    refine mergedFrom_skipped fun e he allowed => ?_
    rw [List.mem_singleton.mp he] at allowed
    simp [allowed] at refused
  · split
    · rename_i known
      obtain ⟨it, found⟩ := Option.isSome_iff_exists.mp known
      exact mergedFrom_skipped fun e he _ => List.mem_singleton.mp he ▸
        Container.key_find found ▸ List.mem_map_of_mem (List.getElem_mem _)
    · obtain ⟨grows, keeps⟩ := Container.insertOrReplace_keeps sound.grayBounded ple
      refine ⟨rfl, rfl, rfl, fun g hg => ?_, grows, ?_⟩
      · rcases Container.mem_of_mem_insertOrReplace hg with old | rfl
        · exact .inl old
        · exact .inr List.mem_cons_self
      · refine keeps.imp_right fun kept => ⟨fun g hg => kept _ ?_, fun e he _ _ => kept _ ?_⟩
        · exact List.mem_map_of_mem (List.mem_cons_of_mem ple hg)
        · rw [List.mem_singleton.mp he]
          exact List.mem_map_of_mem List.mem_cons_self

theorem MergedFrom.trans {m' m'' : PeerlistManager} {bs cs : List PeerlistEntry}
    (first : MergedFrom m bs m') (second : MergedFrom m' cs m'') (bounded : m''.peersGray.size ≤ P2P_LOCAL_GRAY_PEERLIST_LIMIT) :
    MergedFrom m (bs ++ cs) m'' := by
  refine ⟨second.allowLocalIp.trans first.allowLocalIp, second.white.trans first.white,
    second.anchor.trans first.anchor, fun g hg => ?_, first.grows.trans second.grows, ?_⟩
  · rcases second.fromEither g hg with early | late
    · exact (first.fromEither g early).imp_right fun gossiped => List.mem_append_left cs gossiped
    · exact .inr (List.mem_append_right bs late)
  · by_cases full : m''.peersGray.size = P2P_LOCAL_GRAY_PEERLIST_LIMIT
    · exact .inl full
    -- a gray list full after the first merge is still full after the second
    obtain ⟨keptFirst, gossipFirst⟩ := first.keeps.resolve_left fun fullFirst =>
      full (le_antisymm bounded (fullFirst ▸ second.grows))
    obtain ⟨keptSecond, gossipSecond⟩ := second.keeps.resolve_left full
    have carried : ∀ k ∈ m'.peersGray.elements.map PeerlistEntry.adr, k ∈ m''.peersGray.elements.map PeerlistEntry.adr := by
      intro k hk
      obtain ⟨g, hg, rfl⟩ := List.mem_map.mp hk
      exact keptSecond g hg
    refine .inr ⟨fun g hg => carried _ (keptFirst g hg), fun e he allowed notWhite => ?_⟩
    rcases List.mem_append.mp he with early | late
    · exact carried _ (gossipFirst e early allowed notWhite)
    · have allowed' : m'.isIpAllowed e.adr.ip = true := by
        rw [isIpAllowed, first.allowLocalIp]
        exact allowed
      exact gossipSecond e late allowed' (first.white ▸ notWhite)

theorem Sound.mergedFrom_foldl (sound : m.Sound) (outerBs : List PeerlistEntry) :
    MergedFrom m outerBs (outerBs.foldl PeerlistManager.appendWithPeerGray m) := by
  induction outerBs generalizing m with
  | nil => exact mergedFrom_skipped fun _ absent => absurd absent List.not_mem_nil
  | cons be rest ih =>
    have after := sound.appendWithPeerGray be
    have ended := after.foldlAppendWithPeerGray rest
    exact (sound.mergedFrom_appendWithPeerGray be).trans (ih after) ended.grayBounded

/-- From any reachable state, `merge_peerlist` leaves the white and anchor lists
as they are, and fills the gray list from the old gray entries and the gossiped
ones; unless the gray list ends full, it loses no gray address and takes in every
allowed gossiped address that is not white. -/
theorem mergePeerlist_keeps (reached : m.Reachable) (outerBs : List PeerlistEntry) :
    MergedFrom m outerBs (m.mergePeerlist outerBs) := by
  have sound := reached.sound
  have merged := sound.mergedFrom_foldl outerBs
  rw [mergePeerlist, trimGrayPeerlist,
    Container.trim_of_size_le (sound.foldlAppendWithPeerGray outerBs).grayBounded]
  exact merged

theorem seenThenGossip_mergePeerlist :
    ∃ m : PeerlistManager, m.Reachable ∧
      MergedFrom m [⟨⟨0x0c0b0a09, 8080⟩, 11, 70⟩, ⟨⟨0x04030201, 8080⟩, 7, 60⟩]
        (m.mergePeerlist [⟨⟨0x0c0b0a09, 8080⟩, 11, 70⟩, ⟨⟨0x04030201, 8080⟩, 7, 60⟩]) :=
  have reached : ((empty.init false).run seenThenGossip).Reachable := ⟨false, seenThenGossip, rfl⟩
  ⟨_, reached, mergePeerlist_keeps reached _⟩

end PeerlistManager

end CryptoNote
