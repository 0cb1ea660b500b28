import ChainIndexer.Consumer.Process
import ChainIndexer.Tokens.State
import Mathlib.Data.List.Induction
import Mathlib.Data.List.Nodup

/-!
# The owners of tokens

A block overwrites the owners of the tokens it transfers, so what is delivered again is made up for
when the consumer has caught up. The owner of a token is then the receiver of its last transfer in
the topic. That transfer counts even if a later block supersedes its block.
-/

namespace ChainIndexer.Tokens

open Consumption (Reaches Completes)
open Consumer (Lives Process)
open Service (Executes)
open Transfers (TransformedBlock)

variable {s t : Collection} {n : Nat}

/-- The owner that the collection has for a token. -/
def ownerOf (documents : Collection) (tokenId : Nat) : Option String :=
  (documents.find? (·.tokenId = tokenId)).map (·.owner)

/-- The owner after the last of these transfers of a token, if there is one. -/
def lastOwner (tokens : List Token) (tokenId : Nat) : Option String :=
  (tokens.reverse.find? (·.tokenId = tokenId)).map (·.owner)

private theorem ownerOf_upsert (token : Token) (documents : Collection) (tokenId : Nat) :
    ownerOf (upsert token documents) tokenId =
      if token.tokenId = tokenId then some token.owner else ownerOf documents tokenId := by
  induction documents with
  | nil =>
    by_cases h : token.tokenId = tokenId
    · simp [upsert, ownerOf, h]
    · simp [upsert, ownerOf, h]
  | cons document documents ih =>
    unfold ownerOf at ih ⊢
    rw [upsert]
    by_cases hsame : document.tokenId = token.tokenId
    · rw [if_pos hsame]
      by_cases h : token.tokenId = tokenId
      · simp [h]
      · simp [h, hsame]
    · rw [if_neg hsame]
      by_cases hdoc : document.tokenId = tokenId
      · have hne : token.tokenId ≠ tokenId := fun h => hsame (hdoc.trans h.symm)
        simp [hdoc, hne]
      · simp only [List.find?_cons, hdoc, decide_false]
        exact ih

/-- A document after an update is the new one or an old one. -/
theorem mem_upsert {token other : Token} {documents : Collection}
    (h : other ∈ upsert token documents) : other = token ∨ other ∈ documents := by
  induction documents with
  | nil => exact Or.inl (List.mem_singleton.mp h)
  | cons document documents ih =>
    rw [upsert] at h
    split at h
    · rcases List.mem_cons.mp h with rfl | h
      · exact Or.inl rfl
      · exact Or.inr (List.mem_cons_of_mem document h)
    · rcases List.mem_cons.mp h with rfl | h
      · exact Or.inr List.mem_cons_self
      · exact (ih h).imp id (List.mem_cons_of_mem document)

/-- An update keeps one document for each token. -/
theorem upsert_nodup {token : Token} {documents : Collection}
    (h : (documents.map (·.tokenId)).Nodup) : ((upsert token documents).map (·.tokenId)).Nodup := by
  induction documents with
  | nil => simp [upsert]
  | cons document documents ih =>
    rw [List.map_cons, List.nodup_cons] at h
    rw [upsert]
    split
    · rename_i hsame
      rw [List.map_cons, List.nodup_cons, ← hsame]
      exact h
    · rename_i hne
      rw [List.map_cons, List.nodup_cons]
      refine ⟨fun hmem => ?_, ih h.2⟩
      obtain ⟨other, hother, hid⟩ := List.mem_map.mp hmem
      rcases mem_upsert hother with rfl | hold
      · exact hne hid.symm
      · exact h.1 (hid ▸ List.mem_map_of_mem hold)

/-- With one document for each token, the documents are the owners. -/
theorem mem_iff_ownerOf {documents : Collection} (h : (documents.map (·.tokenId)).Nodup)
    (token : Token) : token ∈ documents ↔ ownerOf documents token.tokenId = some token.owner := by
  induction documents with
  | nil => simp [ownerOf]
  | cons document documents ih =>
    rw [List.map_cons, List.nodup_cons] at h
    unfold ownerOf at ih ⊢
    by_cases hsame : document.tokenId = token.tokenId
    · have hnot : token ∉ documents := fun hmem =>
        h.1 (hsame ▸ List.mem_map_of_mem hmem)
      simp only [List.find?_cons, hsame, decide_true, Option.map_some, Option.some.injEq,
        List.mem_cons, hnot, or_false]
      constructor
      · rintro rfl
        rfl
      · intro howner
        cases document
        cases token
        simp_all
    · have hne : token ≠ document := fun heq => hsame (heq ▸ rfl)
      simp only [List.find?_cons, hsame, decide_false, List.mem_cons, hne, false_or]
      exact ih h.2

/-! ## One block -/

/-- The updates of some transfers, one after the other. -/
def upserts (documents : Collection) (tokens : List Token) : Collection :=
  tokens.foldl (fun documents token => upsert token documents) documents

/-- A later transfer counts before an earlier one. -/
theorem lastOwner_append (xs ys : List Token) (tokenId : Nat) :
    lastOwner (xs ++ ys) tokenId = (lastOwner ys tokenId).or (lastOwner xs tokenId) := by
  simp only [lastOwner, List.reverse_append, List.find?_append, Option.map_or]

private theorem lastOwner_singleton (token : Token) (tokenId : Nat) :
    lastOwner [token] tokenId = if token.tokenId = tokenId then some token.owner else none := by
  by_cases h : token.tokenId = tokenId
  · simp [lastOwner, h]
  · simp [lastOwner, h]

/-- A token that is not transferred has no last owner. -/
theorem lastOwner_eq_none {tokens : List Token} {tokenId : Nat}
    (h : ∀ token ∈ tokens, token.tokenId ≠ tokenId) : lastOwner tokens tokenId = none := by
  simpa [lastOwner] using h

private theorem lastOwner_isSome {tokens : List Token} {token : Token} (h : token ∈ tokens) :
    (lastOwner tokens token.tokenId).isSome = true := by
  rw [lastOwner, Option.isSome_map, List.find?_isSome]
  exact ⟨token, List.mem_reverse.mpr h, by simp⟩

/-- The updates leave the owner of the last transfer. -/
theorem ownerOf_upserts (documents : Collection) (tokens : List Token) (tokenId : Nat) :
    ownerOf (upserts documents tokens) tokenId =
      (lastOwner tokens tokenId).or (ownerOf documents tokenId) := by
  induction tokens using List.reverseRecOn with
  | nil => rfl
  | append_singleton tokens token ih =>
    rw [upserts, List.foldl_concat, ownerOf_upsert, lastOwner_append, lastOwner_singleton]
    split
    · rfl
    · exact ih

private theorem upserts_nodup {tokens : List Token} (h : (s.map (·.tokenId)).Nodup) :
    ((upserts s tokens).map (·.tokenId)).Nodup := by
  induction tokens generalizing s with
  | nil => exact h
  | cons token tokens ih => exact ih (upsert_nodup h)

/-- What the transfers of an entry make of the owners. -/
def apply {α : Type} (items : α → List Token) (owners : Nat → Option String) (a : α) :
    Nat → Option String :=
  fun tokenId => (lastOwner (items a) tokenId).or (owners tokenId)

/-- The owners of the tokens that an entry does not transfer are the same. -/
def Agree {α : Type} (items : α → List Token) (a : α) (owners others : Nat → Option String) :
    Prop :=
  ∀ tokenId, (∀ token ∈ items a, token.tokenId ≠ tokenId) → owners tokenId = others tokenId

/-- An entry overwrites the owners of the tokens it transfers. -/
theorem overwrites_apply {α : Type} (items : α → List Token) :
    Overwrites (apply items) (Agree items) where
  refl _ _ _ _ := rfl
  same {a owners others} h := by
    funext tokenId
    unfold apply
    by_cases hnone : ∀ token ∈ items a, token.tokenId ≠ tokenId
    · rw [h tokenId hnone]
    · push Not at hnone
      obtain ⟨token, hmem, rfl⟩ := hnone
      obtain ⟨owner, howner⟩ := Option.isSome_iff_exists.mp (lastOwner_isSome hmem)
      rw [howner, Option.some_or, Option.some_or]
  kept h tokenId hnone := by
    unfold apply
    rw [h tokenId hnone]
  rest a owners tokenId hnone := by
    rw [apply, lastOwner_eq_none hnone, Option.none_or]

/-- `updateTokens` makes the first updates, all of them if it resolves. -/
theorem updateTokens_spec {data : List Token} {result : Except Thrown Unit}
    (h : Executes Serves (updateTokens data) s result t) :
    ∃ written, t = upserts s written ∧ written <+: data ∧
      (result.isOk = true → written = data) := by
  induction data generalizing s with
  | nil =>
    obtain ⟨rfl, rfl⟩ := Executes.done_iff.mp h
    exact ⟨[], rfl, List.nil_prefix, fun _ => rfl⟩
  | cons token data ih =>
    obtain ⟨answer, u, hserves, hrest⟩ := Executes.call_iff.mp h
    cases hserves with
    | updated =>
      obtain ⟨written, rfl, hbegins, hall⟩ := ih hrest
      exact ⟨token :: written, rfl, (List.prefix_cons_inj token).mpr hbegins,
        fun hok => by rw [hall hok]⟩
    | failed hwritten =>
      obtain ⟨rfl, rfl⟩ := Executes.done_iff.mp hrest
      rcases hwritten with rfl | rfl
      · exact ⟨[], rfl, List.nil_prefix, fun hok => by cases hok⟩
      · exact ⟨[token], rfl, ⟨data, rfl⟩, fun hok => by cases hok⟩

/-- A call of `next` makes the first updates of its block, all of them if it resolves. -/
theorem handle_spec {block : TransformedBlock NFTTransferTx} {ok : Bool} (h : handle block s ok t) :
    ∃ written, t = upserts s written ∧ written <+: map block ∧
      (ok = true → written = map block) := by
  obtain ⟨result, hexec, rfl⟩ := h
  have hlength : (map block).length = block.data.length := List.length_map _
  rw [next, save, hlength] at hexec
  split at hexec
  · rcases Executes.andThen_iff.mp hexec with ⟨_, u, hsave, hdone⟩ | ⟨error, hsave, rfl⟩
    · obtain ⟨rfl, rfl⟩ := Executes.done_iff.mp hdone
      rcases Executes.andThen_iff.mp hsave with ⟨_, v, hupdate, hdone⟩ | ⟨_, _, hcontra⟩
      · obtain ⟨_, rfl⟩ := Executes.done_iff.mp hdone
        obtain ⟨written, rfl, hbegins, hall⟩ := updateTokens_spec hupdate
        exact ⟨written, rfl, hbegins, fun _ => hall rfl⟩
      · cases hcontra
    · rcases Executes.andThen_iff.mp hsave with ⟨_, v, hupdate, hdone⟩ | ⟨error, hupdate, _⟩
      · cases (Executes.done_iff.mp hdone).1
      · obtain ⟨written, rfl, hbegins, -⟩ := updateTokens_spec hupdate
        exact ⟨written, rfl, hbegins, fun hok => by cases hok⟩
  · rename_i hzero
    obtain ⟨rfl, rfl⟩ := Executes.done_iff.mp hexec
    refine ⟨[], rfl, List.nil_prefix, fun _ => ?_⟩
    exact (List.length_eq_zero_iff.mp (by omega)).symm

/-! ## The whole topic -/

/-- One pass over a log leaves the owners of the last transfers. -/
theorem foldl_apply {α : Type} (items : α → List Token) (log : List α) :
    log.foldl (apply items) (fun _ => none) = lastOwner (log.flatMap items) := by
  induction log using List.reverseRecOn with
  | nil => rfl
  | append_singleton log a ih =>
    rw [List.foldl_concat, ih, List.flatMap_append, List.flatMap_singleton]
    funext tokenId
    rw [apply, lastOwner_append]

/-- A consumer at the end of a topic has one document for each token transferred in it. -/
theorem reaches_owners {topic : List (TransformedBlock NFTTransferTx)} {c : Consumption Collection}
    (h : Reaches topic handle [] c) (hend : c.place = topic.length) :
    (c.store.map (·.tokenId)).Nodup ∧ ∀ token,
      token ∈ c.store ↔ lastOwner (topic.flatMap map) token.tokenId = some token.owner := by
  have hnodup : (c.store.map (·.tokenId)).Nodup := by
    refine h.invariant (I := fun documents => (documents.map (·.tokenId)).Nodup) List.nodup_nil
      fun block _ documents ok rest hdocuments hhandle => ?_
    obtain ⟨written, rfl, -⟩ := handle_spec hhandle
    exact upserts_nodup hdocuments
  have hcompletes : Completes (apply map) topic ownerOf (ownerOf []) c := by
    refine h.completes (overwrites_apply map) (I := fun _ => True) trivial
      (fun _ _ _ _ _ _ _ => trivial) (fun block _ documents rest _ hhandle => ?_)
      fun block _ documents rest _ hhandle tokenId hnone => ?_
    · obtain ⟨written, rfl, -, hall⟩ := handle_spec hhandle
      rw [hall rfl]
      funext tokenId
      exact ownerOf_upserts _ _ _
    · obtain ⟨written, rfl, hbegins, -⟩ := handle_spec hhandle
      rw [ownerOf_upserts, lastOwner_eq_none fun token hmem => hnone token (hbegins.subset hmem),
        Option.none_or]
  have howners : ownerOf c.store = lastOwner (topic.flatMap map) :=
    (hcompletes.atEnd h.within hend).trans (foldl_apply map topic)
  exact ⟨hnodup, fun token => by rw [mem_iff_ownerOf hnodup, howners]⟩

/-- **The last transfer counts.** Whatever the consumer of a topic goes through, when it has handled
the last block there is one document for each token transferred in the topic, with the receiver of
the last transfer. -/
theorem consumed_owners {β : Type} {cfg : Consumer.Config} (hcfg : cfg.mode = .synchronous)
    {topic : List (TransformedBlock NFTTransferTx)}
    {p : Process β (TransformedBlock NFTTransferTx) Collection}
    (h : Lives cfg topic handle [] p) (hend : p.place = topic.length) :
    (p.store.map (·.tokenId)).Nodup ∧ ∀ token,
      token ∈ p.store ↔ lastOwner (topic.flatMap map) token.tokenId = some token.owner := by
  obtain ⟨begun, hreach⟩ := (Consumer.lives_lined hcfg h).2
  exact reaches_owners hreach hend

/-- A transfer of a token to a receiver. -/
def handing (tokenId : Nat) (receiverAddress : String) : NFTTransferTx where
  transactionIndex := 0
  transactionHash := "0x1"
  transactionInitiator := "0xa"
  tokenAddress := "0xc"
  senderAddress := "0xa"
  receiverAddress := receiverAddress
  tokenId := tokenId

/-- A block that transfers one token is saved with one update. -/
theorem handle_handing {height timestamp tokenId : Nat} {receiverAddress : String}
    {documents updated : Collection}
    (h : upsert ⟨tokenId, toLowerCase receiverAddress⟩ documents = updated) :
    handle ⟨height, timestamp, [handing tokenId receiverAddress]⟩ documents true updated := by
  subst h
  exact ⟨.ok (), .call .updated .done, rfl⟩

/-- One token is transferred twice, another one once. -/
def traded : List (TransformedBlock NFTTransferTx) :=
  [⟨5, 100, [handing 7 "0xa"]⟩, ⟨6, 102, [handing 7 "0xB", handing 8 "0xd"]⟩]

/-- Each token has its last owner, although the first call for the second block rejects between its
two updates, the process dies, and both blocks are delivered again. -/
theorem traded_owners : ∃ p : Process Unit (TransformedBlock NFTTransferTx) Collection,
    p.store = [⟨7, "0xb"⟩, ⟨8, "0xd"⟩] ∧ (p.store.map (·.tokenId)).Nodup ∧ ∀ token,
      token ∈ p.store ↔ lastOwner (traded.flatMap map) token.tokenId = some token.owner := by
  have hrejects : handle ⟨6, 102, [handing 7 "0xB", handing 8 "0xd"]⟩ [⟨7, "0xa"⟩] false
      [⟨7, "0xb"⟩] :=
    ⟨.error (.unknown "no answer"), .call .updated (.call (.failed (Or.inl rfl)) .done), rfl⟩
  have hsecond : handle ⟨6, 102, [handing 7 "0xB", handing 8 "0xd"]⟩ [⟨7, "0xa"⟩] true
      [⟨7, "0xb"⟩, ⟨8, "0xd"⟩] :=
    ⟨.ok (), .call .updated (.call .updated .done), rfl⟩
  have hreach : Reaches traded handle [] ⟨2, 2, [⟨7, "0xb"⟩, ⟨8, "0xd"⟩]⟩ :=
    .tail (.tail (.tail (.tail (.tail .refl
      (.handled (c := ⟨0, 0, []⟩) rfl (handle_handing rfl)))
      (.failed (c := ⟨1, 1, _⟩) rfl hrejects))
      (.restarted (c := ⟨1, 2, _⟩) (Nat.zero_le 1)))
      (.handled (c := ⟨0, 2, _⟩) rfl (handle_handing rfl)))
      (.handled (c := ⟨1, 2, _⟩) rfl hsecond)
  obtain ⟨p, hlives, hplace, hstore⟩ : ∃ p : Process Unit (TransformedBlock NFTTransferTx)
      Collection, Lives Consumer.oneByOne traded handle [] p ∧ p.place = 2 ∧
        p.store = [⟨7, "0xb"⟩, ⟨8, "0xd"⟩] :=
    Consumer.reaches_lives rfl (by decide) (fun _ => rfl) hreach
  exact ⟨p, hstore, consumed_owners rfl hlives hplace⟩

end ChainIndexer.Tokens
