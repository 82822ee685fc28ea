import Plenum.Proofs.Authority
import Plenum.Proofs.VoteOrder

namespace Plenum

namespace Question

variable {q : Question} {cs : List Cast}

-- The votes on a question that are of one key, however it is spelled.
def votesBy (q : Question) (k : Key) : Table Vote :=
  q.votes.filter fun p => Base64.decode? p.1 = some k.toList

-- A key is looked for under its one spelling.
theorem Counts.votesBy_eq (hq : q.Counts cs) (k : Key) :
    q.votesBy k = ((recount cs q.id (Base64.encode k.toList)).map
      fun v => (Base64.encode k.toList, v)).toList := by
  have hk (voter : String) :
      Base64.decode? voter = some k.toList ↔ voter = Base64.encode k.toList := by
    constructor
    case mp => exact fun hv => (Base64.encode_of_decode? hv).symm
    case mpr => exact fun hv => hv ▸ Base64.decode?_encode k.toList
  simp only [votesBy, hk, Table.filter_key hq.left, ← hq.right, voteOf?]

end Question

-- Who has cast a ballot on a question has a vote, and it is not after this ballot.
theorem exists_recount {cs : List Cast} {c : Cast} (hc : c ∈ cs) :
    ∃ v, recount cs c.question c.voter = some v ∧ v.castAt ≤ c.vote.castAt := by
  have hm := mem_votesOf.mpr ⟨c, hc, rfl, rfl, rfl⟩
  cases hv : recount cs c.question c.voter
  case none =>
    have hn : votesOf cs c.question c.voter = [] := Vote.eq_nil_of_earliest hv
    rw [hn] at hm
    cases hm
  case some v => exact ⟨v, rfl, Vote.leads_iff.mp (List.find?_some hv) _ hm⟩

-- A ballot names the message that it came in and the sender of that message.
theorem Message.voter_of_mem_casts {m : Message} {c : Cast} (hc : c ∈ m.casts) :
    c.voter = m.sender ∧ c.vote.message = m.id := by
  obtain ⟨_, _, _, _, rfl⟩ := mem_casts.mp hc
  exact ⟨rfl, rfl⟩

namespace Election

variable {h : Host} {hub : Hub} {e : Election} {path : String}

-- Who has a vote has signed the message that it came in.
theorem exists_signed_of_mem_votes (hr : hub.Reachable h)
    (he : Table.get? hub.elections path = some e) {q : Question}
    (hq : q ∈ e.questions) {voter : String} {v : Vote} (hv : (voter, v) ∈ q.votes) :
    ∃ m ∈ e.inbox.messages, m.id = v.message ∧ m.sender = voter ∧
      ∃ k, m.SignedBy h.suite k := by
  obtain ⟨c, hc, -, rfl, rfl⟩ := ((counted hr he).counts q hq).exists_cast hv
  obtain ⟨m, hm, hc⟩ := List.mem_flatMap.mp hc
  have ⟨hs, hi⟩ := Message.voter_of_mem_casts hc
  have ⟨env, hu⟩ := (regular hr he).passed m hm
  exact ⟨m, hm, hi.symm, hs.symm, env.sender, Message.signedBy_of_unseal hu⟩

-- Who has signed a message with a ballot on a question has one vote on it, which is not after this
-- ballot.
theorem votesBy_of_signedBy (hr : hub.Reachable h)
    (he : Table.get? hub.elections path = some e) {q : Question}
    (hq : q ∈ e.questions) {m : Message} (hm : m ∈ e.inbox.messages) {k : Key}
    (hk : m.SignedBy h.suite k) {c : Cast} (hc : c ∈ m.casts) (hi : c.question = q.id) :
    ∃ v, q.votesBy k = [(m.sender, v)] ∧ v.castAt ≤ c.vote.castAt := by
  have ⟨v, hv, hl⟩ := exists_recount (List.mem_flatMap_of_mem hm hc)
  have hs := hk.sender_eq
  rw [hi, (Message.voter_of_mem_casts hc).left, hs] at hv
  rw [((counted hr he).counts q hq).votesBy_eq, casts, hv, hs]
  exact ⟨v, rfl, hl⟩

end Election

-- Every vote that is stored is of a key: its voter is the spelling of a key that has signed the
-- message with the ballot. The spellings of two voters are read as different keys, and so a key has
-- at most one vote on a question, and one if it has signed a ballot on it, be it the organizer's
-- at that time or an attendee's.
theorem Election.one_vote_per_key (h : Host) (hub : Hub) (hr : hub.Reachable h) (path : String)
    (e : Election) (q : Question) (he : Table.get? hub.elections path = some e)
    (hq : q ∈ e.questions) :
    (∀ voter v, (voter, v) ∈ q.votes → ∃ k, h.suite.readKey voter = .ok k ∧
      ∃ m ∈ e.inbox.messages, m.id = v.message ∧ m.sender = voter ∧ m.SignedBy h.suite k) ∧
    (∀ p ∈ q.votes, ∀ p' ∈ q.votes, Base64.decode? p.1 = Base64.decode? p'.1 → p = p') ∧
    ∀ k, (q.votesBy k).length ≤ 1 ∧
      ∀ m ∈ e.inbox.messages, m.SignedBy h.suite k → ∀ c ∈ m.casts, c.question = q.id →
        ∃ v, q.votesBy k = [(m.sender, v)] ∧ v.castAt ≤ c.vote.castAt := by
  have hc := (counted hr he).counts q hq
  refine ⟨fun voter v hv => ?read, fun p hp p' hp' hd => ?apart, fun k => ⟨?one, ?signed⟩⟩
  case read =>
    obtain ⟨m, hm, hi, rfl, k, hk⟩ := exists_signed_of_mem_votes hr he hq hv
    exact ⟨k, hk.readKey_eq, m, hm, hi, rfl, hk⟩
  case apart =>
    obtain ⟨m, -, -, hs, k, hk⟩ := exists_signed_of_mem_votes hr he hq hp
    have hp1 : Base64.decode? p.1 = some k.toList := by
      rw [← hs, hk.sender_eq]
      exact Base64.decode?_encode _
    have hl := Base64.encode_of_decode? hp1
    rw [hd] at hp1
    have hr := Base64.encode_of_decode? hp1
    exact List.inj_on_of_nodup_map hc.left hp hp' (hl.symm.trans hr)
  case one =>
    rw [hc.votesBy_eq]
    exact Option.length_toList_le
  case signed => exact fun m hm hk c hc hi => votesBy_of_signedBy hr he hq hm hk hc hi

-- In the trial the organizer has voted, and this is its one vote.
theorem Election.one_vote_per_key_votedA :
    let hub := Hub.after Trial.host Trial.voteRun
    hub.Reachable Trial.host ∧ Table.get? hub.elections (Trial.path "A") = some Trial.votedA ∧
      ∃ q ∈ Trial.votedA.questions, ∃ v,
        q.votesBy Trial.organizer = [(Base64.encode Trial.organizer.toList, v)] := by
  intro hub
  have hr := Hub.reachable_after Trial.host Trial.voteRun
  have he := Trial.reaches_votedA.get?_eq
  obtain ⟨q, hq, hv⟩ : ∃ q ∈ Trial.votedA.questions,
      q.votes = [(Base64.encode Trial.organizer.toList, Trial.record 2)] := by
    rw [Trial.votedA, Trial.questions_voted rfl]
    exact ⟨_, List.mem_singleton_self _, rfl⟩
  obtain ⟨-, -, hk⟩ :=
    one_vote_per_key Trial.host hub hr (Trial.path "A") Trial.votedA q he hq
  obtain ⟨hl, -⟩ := hk Trial.organizer
  have hm : (Base64.encode Trial.organizer.toList, Trial.record 2) ∈ q.votesBy Trial.organizer := by
    rw [Question.votesBy, hv, List.mem_filter]
    exact ⟨List.mem_singleton_self _, decide_eq_true (Base64.decode?_encode _)⟩
  obtain ⟨p, hp⟩ := List.length_eq_one_iff.mp (Nat.le_antisymm hl (List.length_pos_of_mem hm))
  cases List.mem_singleton.mp (hp ▸ hm)
  exact ⟨hr, he, q, hq, _, hp⟩

end Plenum
