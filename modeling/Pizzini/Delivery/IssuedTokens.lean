import Mathlib.Data.List.Perm.Basic
import Pizzini.Delivery.Resends

/-!
# Every token goes out once (`mintV2DeliveryToken`, `rollbackV2DeliveryToken`)

A token is minted, and goes out on one frame, waits with a group leg, or is lost; a rollback
gives an index back only while no frame has it. So along every run, whatever fails, no index
of a chain is carried by two frames, and what has been carried lies below the chain's cursor.
-/

namespace Pizzini.Delivery

open Wire Relay Chat

/-! ## Tokens and their wire form -/

/-- The wire form of a token names it. -/
theorem encode_inj {t t' : Token} (hpos : 0 < t.index) (hlt : t.index < 2 ^ 32)
    (hpos' : 0 < t'.index) (hlt' : t'.index < 2 ^ 32) (h : encode t = encode t') : t = t' := by
  have hparse := parseV2Token_encode hpos hlt
  rw [h, parseV2Token_encode hpos' hlt'] at hparse
  obtain ⟨hid, hindex, hvalue⟩ : t'.chainID = t.chainID ∧
      UInt32.ofNat t'.index = UInt32.ofNat t.index ∧ t'.value = t.value := by
    simpa using hparse
  have hnat : t'.index = t.index := by
    rw [← UInt32.toNat_ofNat_of_lt' hlt', hindex, UInt32.toNat_ofNat_of_lt' hlt]
  cases t
  cases t'
  simp_all

theorem encode_ne_nil (t : Token) : encode t ≠ [] := by
  intro h
  have hlen : (encode t).length = 0 := by rw [h, List.length_nil]
  rw [encode, List.length_append, List.length_append, length_beBytes] at hlen
  omega

/-- A delivered chain is unused, and as long as four bytes can say. -/
theorem decodeSeedDelivery_eq_some {wire : Bytes} {chain : Chain}
    (h : decodeSeedDelivery wire = some chain) : chain.nextIndex = 1 ∧ chain.length < 2 ^ 32 := by
  rw [decodeSeedDelivery, Option.filter_eq_some_iff] at h
  obtain ⟨hchain, hfirst⟩ := h
  refine ⟨of_decide_eq_true hfirst, ?_⟩
  unfold decodeChain at hchain
  split at hchain
  · next hlen =>
    simp only at hchain
    split at hchain
    · cases hchain
      have hfour : ((wire.drop 80).take 4).length = 4 := by
        rw [List.length_take, List.length_drop, hlen]
        rfl
      have hlt := beNat_lt ((wire.drop 80).take 4)
      rw [hfour] at hlt
      exact hlt
    · cases hchain
  · cases hchain

namespace Outbound

variable {blake3 : Bytes → ChainValue} {me : Bytes} {d d₁ d' : Outbound} {peer : Bytes}
  {token : Token}

/-! ## Keys -/

/-- An index of a peer's chain. -/
abbrev Key := Bytes × ChainId × Nat

/-- The index a token stands for. -/
def keyOf (peer : Bytes) (token : Token) : Key := (peer, token.chainID, token.index)

/-- The indices that have gone out, and those that wait with a leg. -/
def keys (d : Outbound) : List Key :=
  (d.carried.map fun x => keyOf x.peer x.token) ++ d.legs.map fun leg => keyOf leg.recipient leg.token

/-- The index lies below the cursor, if it is of the peer's current chain. -/
def Below (d : Outbound) (k : Key) : Prop :=
  ∀ chain, d.chain k.1 = some chain → k.2.1 = chain.chainID → k.2.2 < chain.nextIndex

/-- Every index goes out, or waits, once, and only after it was minted. -/
structure Issued (d : Outbound) : Prop where
  nodup : d.keys.Nodup
  below : ∀ k ∈ d.keys, d.Below k

theorem keys_mint (hmint : d.mintV2DeliveryToken blake3 peer = some (token, d₁)) :
    d₁.keys = d.keys := by
  obtain ⟨-, -, hlegs, hcarried⟩ := mint_frame hmint
  rw [keys, keys, hlegs, hcarried]

theorem Below.mint {k : Key} (h : d.Below k)
    (hmint : d.mintV2DeliveryToken blake3 peer = some (token, d₁)) : d₁.Below k := by
  obtain ⟨chain, hchain, -, -, rfl⟩ := mint_eq_some_iff.mp hmint
  intro chain' hchain' hid
  rcases chain_update_cases hchain' with ⟨hpeer, heq⟩ | ⟨-, hchain'⟩
  · cases heq
    rw [← hpeer] at hchain
    exact Nat.lt_succ_of_lt (h chain hchain hid)
  · exact h chain' hchain' hid

/-- The minted index is new, and then below the cursor. -/
theorem keyOf_mint (hmint : d.mintV2DeliveryToken blake3 peer = some (token, d₁)) :
    ¬d.Below (keyOf peer token) ∧ d₁.Below (keyOf peer token) := by
  obtain ⟨chain, hchain, -, rfl, rfl⟩ := mint_eq_some_iff.mp hmint
  refine ⟨fun h => ?_, fun chain' hchain' hid => ?_⟩
  · exact absurd (h chain hchain rfl) (lt_irrefl chain.nextIndex)
  · rcases chain_update_cases hchain' with ⟨-, heq⟩ | ⟨hne, -⟩
    · cases heq
      exact Nat.lt_succ_self _
    · exact absurd rfl hne

namespace Issued

/-- What is dropped from the keys, or moves among them, changes nothing. -/
theorem of_keys (h : d.Issued) (hnodup : d'.keys.Nodup) (hsub : d'.keys ⊆ d.keys)
    (hbelow : ∀ k ∈ d.keys, d.Below k → d'.Below k) : d'.Issued :=
  ⟨hnodup, fun k hk => hbelow k (hsub hk) (h.below k (hsub hk))⟩

theorem of_same (h : d.Issued) (hkeys : d'.keys = d.keys) (hchain : d'.chain = d.chain) :
    d'.Issued :=
  h.of_keys (by rw [hkeys]; exact h.nodup) (by rw [hkeys]; exact List.Subset.refl _)
    fun k _ hbelow chain => by rw [hchain]; exact hbelow chain

/-- A token is minted, and goes out, waits, or is lost. -/
theorem of_mint (h : d.Issued) (hmint : d.mintV2DeliveryToken blake3 peer = some (token, d₁))
    (hkeys : d'.keys.Perm (keyOf peer token :: d.keys) ∨ d'.keys = d.keys)
    (hchain : d'.chain = d₁.chain) : d'.Issued := by
  have hbelow : ∀ k, d₁.Below k → d'.Below k := by
    intro k hk chain hchain'
    rw [hchain] at hchain'
    exact hk chain hchain'
  obtain ⟨hnew, hminted⟩ := keyOf_mint hmint
  rcases hkeys with hperm | hsame
  · refine ⟨hperm.nodup_iff.mpr (List.nodup_cons.mpr ⟨fun hk => hnew (h.below _ hk), h.nodup⟩),
      fun k hk => hbelow k ?_⟩
    rcases List.mem_cons.mp (hperm.mem_iff.mp hk) with rfl | hk
    · exact hminted
    · exact (h.below k hk).mint hmint
  · refine ⟨by rw [hsame]; exact h.nodup, fun k hk => hbelow k ?_⟩
    rw [hsame] at hk
    exact (h.below k hk).mint hmint

/-- Every move keeps the indices apart, whatever it loses. -/
theorem move (h : d.Issued) {m : Move} (hstep : Move.Step blake3 d m d') : d'.Issued := by
  -- the key of a frame that goes out comes before those of the legs
  have hcarry : ∀ {d₁ : Outbound} {x : Carried} {outbox : Outbox}, d₁.keys = d.keys →
      ({ d₁ with
        carried := d₁.carried ++ [x]
        outbox := outbox } : Outbound).keys.Perm (keyOf x.peer x.token :: d.keys) := by
    intro d₁ x outbox hkeys
    rw [← hkeys]
    simp only [keys, List.map_append, List.map_singleton, List.append_assoc, List.singleton_append]
    exact List.perm_middle
  cases hstep with
  | spend hmint _ => exact h.of_mint hmint (.inl (hcarry (keys_mint hmint))) rfl
  | burn hmint => exact h.of_mint hmint (.inr (keys_mint hmint)) rfl
  | fail _ => exact h.of_same rfl rfl
  | queue hmint _ _ =>
    have hkeys := keys_mint hmint
    exact h.of_mint hmint (.inr hkeys) rfl
  | ship hmint _ => exact h.of_mint hmint (.inl (hcarry (keys_mint hmint))) rfl
  | @hold d₁ e token hmint _ _ =>
    refine h.of_mint hmint (.inl ?_) rfl
    rw [← keys_mint hmint]
    simp only [keys, store, List.map_append, List.map_singleton, ← List.append_assoc]
    exact List.perm_append_singleton _ _
  | @deliver i leg t hleg =>
    have hperm : ({ d with
        legs := d.legs.eraseIdx i
        carried := d.carried ++ [⟨leg.recipient, leg.token, leg.sealed⟩]
        outbox := stamp d.outbox leg.messageId t } : Outbound).keys.Perm d.keys := by
      obtain ⟨hi, rfl⟩ := List.getElem?_eq_some_iff.mp hleg
      simp only [keys, List.map_append, List.map_singleton, List.append_assoc,
        List.singleton_append]
      refine List.Perm.append_left _ ?_
      exact (List.getElem_cons_eraseIdx_perm hi).map fun leg => keyOf leg.recipient leg.token
    exact h.of_keys (hperm.nodup_iff.mpr h.nodup) hperm.subset fun _ _ hbelow => hbelow
  | strand i =>
    have hsub : ({ d with legs := d.legs.eraseIdx i } : Outbound).keys.Sublist d.keys :=
      ((List.eraseIdx_sublist d.legs i).map _).append_left _
    exact h.of_keys (h.nodup.sublist hsub) hsub.subset fun _ _ hbelow => hbelow
  | resend hmint _ _ => exact h.of_mint hmint (.inl (hcarry (keys_mint hmint))) rfl
  | retry hmint _ _ => exact h.of_mint hmint (.inl (hcarry (keys_mint hmint))) rfl
  | revise _ => exact h.of_same rfl rfl
  | @install peer payload chain hchain hnew =>
    refine h.of_keys h.nodup (List.Subset.refl _) fun k hk hbelow chain' hchain' hid => ?_
    rcases chain_update_cases hchain' with ⟨hpeer, heq⟩ | ⟨-, hchain'⟩
    · -- no key is of the new chain
      cases heq
      rcases List.mem_append.mp hk with hk | hk
      · obtain ⟨x, hx, rfl⟩ := List.mem_map.mp hk
        exact absurd hid (hnew.frame x hx hpeer)
      · obtain ⟨leg, hleg, rfl⟩ := List.mem_map.mp hk
        exact absurd hid (hnew.leg leg hleg hpeer)
    · exact hbelow chain' hchain' hid
  | tick => exact h.of_same rfl rfl

end Issued

/-! ## Runs -/

/-- No index of a chain is carried by two frames, and what is carried lies below the cursor. -/
structure CarriedOnce (d : Outbound) : Prop where
  once : ∀ x ∈ d.carried, ∀ y ∈ d.carried, x.peer = y.peer → x.token.chainID = y.token.chainID →
    x.token.index = y.token.index → x.frame = y.frame
  below : ∀ x ∈ d.carried, ∀ chain, d.chain x.peer = some chain →
    x.token.chainID = chain.chainID → x.token.index < chain.nextIndex

theorem Issued.carriedOnce (h : d.Issued) : d.CarriedOnce where
  once x hx y hy hpeer hid hindex := by
    have hnodup := (List.nodup_append.mp h.nodup).1
    have hxy : x = y := List.inj_on_of_nodup_map hnodup hx hy (by rw [keyOf, keyOf, hpeer, hid, hindex])
    rw [hxy]
  below x hx := h.below (keyOf x.peer x.token)
    (List.mem_append_left _ (List.mem_map_of_mem hx))

theorem start_issued (now : Int) : (start now).Issued := ⟨List.nodup_nil, nofun⟩

/-- What no condition is put on allows every event. -/
theorem allowed_all (d : Outbound) (ev : Event) : Allowed blake3 (fun _ _ => True) d ev := by
  cases ev with
  | userRetry id connected ready =>
    intro e _ _ _ _
    split
    · trivial
    · exact fun _ => ⟨trivial, fun _ => trivial⟩
  | userRetryAttachment attachmentId connected ready =>
    intro e _ _ _ _ d' _ _ _
    split
    · trivial
    · exact fun _ => ⟨trivial, fun _ => trivial⟩
  | runRetryWalk connected ready =>
    exact ⟨trivial, fun _ => trivial, fun _ _ _ _ _ _ _ _ _ => trivial⟩
  | _ => simp [Allowed]

/-- Along every event, whatever fails in it. -/
theorem filed_issued_step {ev : Event} (hfiled : d.Filed) (hissued : d.Issued)
    (hdrawn : d.Drawn ev) : (d.step blake3 me ev).Filed ∧ (d.step blake3 me ev).Issued := by
  have hrun : Moves blake3 (fun _ _ => True) d (d.step blake3 me ev) :=
    step_moves (fun _ _ _ => trivial) hfiled.named hdrawn (allowed_all d ev)
  refine hrun.invariant (fun d => d.Filed ∧ d.Issued) ?_ ⟨hfiled, hissued⟩
  rintro d m d' ⟨hfiled, hissued⟩ - hstep
  exact ⟨hfiled.move hstep, hissued.move hstep⟩

/-- And along every run. -/
theorem filed_issued {ok : Outbound → Event → Prop} {now : Int}
    (h : Reaches blake3 me ok (start now) d) : d.Filed ∧ d.Issued := by
  refine h.invariant (fun d => d.Filed ∧ d.Issued) ?_ ⟨start_filed now, start_issued now⟩
  rintro d ev _ ⟨hfiled, hissued⟩ - ⟨hdrawn, rfl⟩
  exact filed_issued_step hfiled hissued hdrawn

end Outbound

end Pizzini.Delivery
