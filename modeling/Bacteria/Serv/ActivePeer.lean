/-
**How long an active peer stays registered.**

The loop over `users` pings a copy, so an entry keeps the ping of its registration. A peer that is
registered by the datagram `first` and stays active is therefore kept and listed exactly while the
clock is at most two minutes past that ping.

* `Active peer history d` — up to `d`, consecutive datagrams of `peer` are at most two minutes apart,
  and `d` comes at most two minutes after the latest.
* `Kept peer users d` — the prune at `d` leaves the entry of `peer`, and the list sent names it.
* `entry_stays` — the entry made by `first` is there as long as nobody's datagram came later than
  that.
* `active_kept_iff` — the result.
-/

import Bacteria.Serv.Registry
import Mathlib.Data.List.Chain

namespace Bacteria.Serv

open Clib

/-- The clock readings of a run, in order. -/
def readings (datagrams : List Datagram) : List Int :=
  datagrams.flatMap fun d => [d.timenow, d.pingnow]

/-- The clock never goes back. -/
def Clocked (datagrams : List Datagram) : Prop := (readings datagrams).Pairwise (· ≤ ·)

instance (datagrams : List Datagram) : Decidable (Clocked datagrams) :=
  inferInstanceAs (Decidable ((readings datagrams).Pairwise (· ≤ ·)))

/-- Consecutive datagrams of `peer` are at most two minutes apart, up to `d`. -/
def Active (peer : SockAddrIn) (history : List Datagram) (d : Datagram) : Prop :=
  (history.filter (fun e => e.sender = peer) ++ [d]).IsChain
    fun earlier later => later.timenow ≤ earlier.timenow + pingTimeout

/-- The prune at `d` leaves an entry of `peer`, and the list sent names it. -/
def Kept (peer : SockAddrIn) (users : List User) (d : Datagram) : Prop :=
  (∃ u ∈ delByPing d.timenow users, u.addr = peer) ∧
    peerText peer ∈ fields (charByte ';') (receive users d).list

/-- The capacity reset happens at `d`. -/
def Resets (users : List User) (d : Datagram) : Prop :=
  (∀ u ∈ delByPing d.timenow users, u.addr ≠ d.sender) ∧ (delByPing d.timenow users).length > 10

/-- No datagram of the run meets the capacity reset. -/
def NoReset (users : List User) (datagrams : List Datagram) : Prop :=
  Runs.EveryStep (fun users d => (receive users d).users) (fun users d => ¬ Resets users d) users
    datagrams

section Activity

variable {peer : SockAddrIn}

/-- Later datagrams are pruned at later readings. -/
theorem timenow_le {before after : List Datagram} {d e : Datagram}
    (clock : Clocked (before ++ d :: after)) (member : e ∈ d :: after) : d.timenow ≤ e.timenow := by
  rw [Clocked, readings, List.flatMap_append, List.flatMap_cons] at clock
  have tail := (List.pairwise_append.mp clock).2.1
  rcases List.mem_cons.mp member with rfl | member
  · exact le_refl _
  · rw [List.cons_append, List.pairwise_cons] at tail
    refine tail.1 e.timenow (List.mem_append_right _ (List.mem_flatMap.mpr ⟨e, member, ?_⟩))
    exact List.mem_cons_self

/-- **A peer that is active at `d` was active at every datagram before it.** -/
theorem Active.earlier {before between : List Datagram} {e d : Datagram}
    (active : Active peer (before ++ e :: between) d) {after : List Datagram}
    (clock : Clocked (before ++ e :: (between ++ d :: after))) : Active peer before e := by
  rw [Active, List.filter_append, List.append_assoc] at active
  obtain ⟨chain, _, gap⟩ := List.isChain_append.mp active
  refine List.isChain_append.mpr ⟨chain, List.isChain_singleton e, ?_⟩
  intro last isLast next isNext
  obtain rfl : e = next := by simpa using isNext
  -- the next datagram of the peer, or `d`, does not come before `e`
  obtain ⟨x, rest, shape⟩ := List.exists_cons_of_ne_nil
    (show (e :: between).filter (fun e => e.sender = peer) ++ [d] ≠ [] by simp)
  rw [shape] at gap
  have bounded := gap last isLast x (by simp)
  have later : x ∈ e :: (between ++ d :: after) := by
    have member : x ∈ (e :: between).filter (fun e => e.sender = peer) ++ [d] := by simp [shape]
    rcases List.mem_append.mp member with inFilter | isD
    · rcases List.mem_cons.mp (List.mem_filter.mp inFilter).1 with rfl | inBetween
      · exact List.mem_cons_self
      · exact List.mem_cons_of_mem _ (List.mem_append_left _ inBetween)
    · obtain rfl := List.mem_singleton.mp isD
      simp
  exact le_trans (timenow_le clock later) bounded

end Activity

section Entry

variable {peer : SockAddrIn} {before : List Datagram} {first : Datagram}

/-- A datagram of a peer without a surviving entry registers it. -/
theorem entry_made (sender : first.sender = peer)
    (fresh : ∀ u ∈ delByPing first.timenow (registryAfter before), u.addr ≠ peer) :
    User.ofAddr peer first.pingnow ∈ registryAfter (before ++ [first]) := by
  have missing : ¬ ∃ u ∈ delByPing first.timenow (registryAfter before), u.addr = first.sender := by
    rintro ⟨u, member, same⟩
    exact fresh u member (same.trans sender)
  rw [registryAfter, Runs.run_append, Runs.run_cons, Runs.run_nil, ← registryAfter, receive_users,
    if_neg missing, sender]
  exact List.mem_append_right _ List.mem_cons_self

/-- **An entry that survives the prune stays**, unless the capacity reset happens. -/
theorem entry_kept {users : List User} {u : User} {d : Datagram} (member : u ∈ users)
    (recent : d.timenow ≤ u.lastPing + pingTimeout) (noReset : ¬ Resets users d) :
    u ∈ (receive users d).users := by
  have survives : u ∈ delByPing d.timenow users := mem_delByPing.mpr ⟨member, by omega⟩
  rw [receive_users]
  by_cases found : ∃ v ∈ delByPing d.timenow users, v.addr = d.sender
  · rwa [if_pos found]
  · have room : ¬ (delByPing d.timenow users).length > 10 := fun full =>
      noReset ⟨fun v inList same => found ⟨v, inList, same⟩, full⟩
    rw [if_neg found, if_neg room]
    exact List.mem_append_left _ survives

/-- An entry stays through datagrams handled at most two minutes past its ping. -/
theorem entry_stays {u : User} {users : List User} {datagrams : List Datagram}
    (noReset : NoReset users datagrams) (member : u ∈ users)
    (recent : ∀ d ∈ datagrams, d.timenow ≤ u.lastPing + pingTimeout) :
    u ∈ Runs.run (fun users d => (receive users d).users) users datagrams := by
  induction datagrams generalizing users with
  | nil => exact member
  | cons d datagrams ih =>
    have here := entry_kept member (recent d List.mem_cons_self) noReset.1
    exact ih noReset.2 here fun e inRest => recent e (List.mem_cons_of_mem _ inRest)

/-- **While its entry is there, a peer is kept exactly when the entry's ping is recent.** -/
theorem kept_iff {datagrams : List Datagram} {u : User} (member : u ∈ registryAfter datagrams)
    (d : Datagram) :
    Kept u.addr (registryAfter datagrams) d ↔ d.timenow ≤ u.lastPing + pingTimeout := by
  obtain ⟨registry, users⟩ := exists_registry datagrams
  rw [← users] at member ⊢
  rw [Kept, list_fields]
  constructor
  · rintro ⟨⟨v, survives, same⟩, _⟩
    obtain ⟨inUsers, recent⟩ := mem_delByPing.mp survives
    obtain rfl := List.inj_on_of_nodup_map registry.distinct inUsers member same
    omega
  · intro recent
    have survives : u ∈ delByPing d.timenow registry.users :=
      mem_delByPing.mpr ⟨member, by omega⟩
    exact ⟨⟨u, survives, rfl⟩, List.mem_map.mpr ⟨u, survives, rfl⟩⟩

theorem registryAfter_append (first second : List Datagram) :
    registryAfter (first ++ second) =
      Runs.run (fun users d => (receive users d).users) (registryAfter first) second :=
  Runs.run_append _ _ _ _

theorem length_receive_le (users : List User) (d : Datagram) :
    (receive users d).users.length ≤ users.length + 1 := by
  obtain ⟨kept, added, shape, survived, _, new⟩ := users_split users d
  have fewer := (survived.trans (delByPing_sublist d.timenow users)).length_le
  rcases new with rfl | ⟨_, _, rfl⟩
  · rw [shape, List.append_nil]
    omega
  · rw [shape, List.length_append, List.length_singleton]
    omega

/-- The capacity reset needs more than ten entries. -/
theorem noReset_of_few {users : List User} {datagrams : List Datagram}
    (few : users.length + datagrams.length ≤ 11) : NoReset users datagrams := by
  induction datagrams generalizing users with
  | nil => trivial
  | cons d datagrams ih =>
    rw [List.length_cons] at few
    have longer := length_receive_le users d
    refine ⟨?_, ih ?_⟩
    · rintro ⟨_, full⟩
      have fewer := (delByPing_sublist d.timenow users).length_le
      omega
    · show (receive users d).users.length + datagrams.length ≤ 11
      omega

/-- **When an active peer is kept.** `first` registers the peer; from then on no capacity reset
happens. The peer is kept and listed at every datagram it is active at, if and only if none of these
is pruned more than two minutes after the ping of its registration. -/
theorem active_kept_iff {later : List Datagram} (clock : Clocked (first :: later))
    (sender : first.sender = peer)
    (fresh : ∀ u ∈ delByPing first.timenow (registryAfter before), u.addr ≠ peer)
    (noReset : NoReset (registryAfter (before ++ [first])) later) :
    (∀ between d after, later = between ++ d :: after → Active peer (first :: between) d →
      Kept peer (registryAfter (before ++ first :: between)) d) ↔
    (∀ between d after, later = between ++ d :: after → Active peer (first :: between) d →
      d.timenow ≤ first.pingnow + pingTimeout) := by
  have made := entry_made sender fresh
  -- where every earlier datagram is recent, the entry is there and decides
  have agree : ∀ between d after, later = between ++ d :: after →
      (∀ e ∈ between, e.timenow ≤ first.pingnow + pingTimeout) →
      (Kept peer (registryAfter (before ++ first :: between)) d ↔
        d.timenow ≤ first.pingnow + pingTimeout) := by
    intro between d after shape recent
    have member : User.ofAddr peer first.pingnow ∈ registryAfter (before ++ first :: between) := by
      rw [← List.singleton_append, ← List.append_assoc, registryAfter_append]
      refine entry_stays ?_ made recent
      rw [NoReset, Runs.everyStep_iff_split] at noReset ⊢
      intro earlier e rest inBetween
      exact noReset earlier e (rest ++ d :: after) (by rw [shape, inBetween]; simp)
    exact kept_iff member d
  have earlier : ∀ between d after, later = between ++ d :: after →
      Active peer (first :: between) d →
      ∀ start e rest, between = start ++ e :: rest → Active peer (first :: start) e := by
    intro between d after shape active start e rest inBetween
    subst inBetween
    have run : Clocked (first :: start ++ e :: (rest ++ d :: after)) := by
      rw [shape] at clock
      simpa using clock
    rw [← List.cons_append] at active
    exact active.earlier run
  constructor
  · intro kept between
    induction size : between.length using Nat.strong_induction_on generalizing between with
    | _ n ih =>
      intro d after shape active
      refine (agree between d after shape fun e member => ?_).mp (kept between d after shape active)
      obtain ⟨start, rest, inBetween⟩ := List.append_of_mem member
      refine ih start.length ?_ start rfl e (rest ++ d :: after) (by rw [shape, inBetween]; simp)
        (earlier between d after shape active start e rest inBetween)
      rw [← size, inBetween, List.length_append, List.length_cons]
      omega
  · intro recent between d after shape active
    refine (agree between d after shape fun e member => ?_).mpr (recent between d after shape active)
    obtain ⟨start, rest, inBetween⟩ := List.append_of_mem member
    exact recent start e (rest ++ d :: after) (by rw [shape, inBetween]; simp)
      (earlier between d after shape active start e rest inBetween)

/-- A peer at 127.0.0.1:3245. -/
def pingingPeer : SockAddrIn := ⟨2, htons 3245, 0x0100007f⟩

/-- Its datagram at some second. -/
def pingAt (time : Int) : Datagram := ⟨pingingPeer, ascii "PING!\n", time, time⟩

/-- At its first ping no entry is there. -/
theorem pingingPeer_fresh :
    ∀ u ∈ delByPing (pingAt 0).timenow (registryAfter []), u.addr ≠ pingingPeer := by
  intro u member
  exact absurd (mem_delByPing.mp member).1 List.not_mem_nil

/-- A ping 100 seconds after the registration finds the peer registered. -/
theorem active_kept_sample : Kept pingingPeer (registryAfter [pingAt 0]) (pingAt 100) := by
  have noReset : NoReset (registryAfter ([] ++ [pingAt 0])) [pingAt 100] :=
    noReset_of_few (Nat.add_le_add_right (length_receive_le [] (pingAt 0)) 1 |>.trans (by decide))
  have clock : Clocked [pingAt 0, pingAt 100] := by decide
  refine (active_kept_iff clock rfl pingingPeer_fresh noReset).mpr ?_ [] (pingAt 100) [] rfl
    (by simp [Active, pingAt, pingTimeout])
  intro between d after shape _
  have member : d ∈ [pingAt 100] := by rw [shape]; simp
  obtain rfl := List.mem_singleton.mp member
  decide

/-- **An active peer is timed out**: with pings at 0, 100 and 200 seconds, the third finds the entry
pruned and is answered with a list that does not name the peer. -/
theorem active_peer_pruned :
    Clocked [pingAt 0, pingAt 100, pingAt 200] ∧
      (∀ u ∈ delByPing (pingAt 0).timenow (registryAfter []), u.addr ≠ pingingPeer) ∧
      NoReset (registryAfter [pingAt 0]) [pingAt 100, pingAt 200] ∧
      Active pingingPeer [pingAt 0, pingAt 100] (pingAt 200) ∧
      ¬ Kept pingingPeer (registryAfter [pingAt 0, pingAt 100]) (pingAt 200) := by
  have noReset : NoReset (registryAfter [pingAt 0]) [pingAt 100, pingAt 200] :=
    noReset_of_few (Nat.add_le_add_right (length_receive_le [] (pingAt 0)) 2 |>.trans (by decide))
  have made := @entry_made pingingPeer [] (pingAt 0) rfl pingingPeer_fresh
  have stays : User.ofAddr pingingPeer 0 ∈ registryAfter [pingAt 0, pingAt 100] :=
    entry_kept made (by decide) noReset.1
  refine ⟨by decide, pingingPeer_fresh, noReset, by simp [Active, pingAt, pingTimeout], ?_⟩
  rw [show pingingPeer = (User.ofAddr pingingPeer 0).addr from rfl, kept_iff stays]
  decide

end Entry

end Bacteria.Serv
