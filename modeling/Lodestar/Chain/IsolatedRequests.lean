import Lodestar.Chain.VerifiedSets

/-!
# Requests of one package

The worker merges the sets of several requests into batches and writes the
verdicts back by index. A request gets the verdict it would get alone, unless a
public key of any of them cannot be read.
-/

namespace Lodestar.Chain

open Lodestar.Base

section

variable {PublicKey Signature : Type} {bls : Bls PublicKey Signature} {workReqArr : List BlsWorkReq}
  {results : List (Option WorkResult)} {todo : List (WorkSets PublicKey)}
  {work : WorkSets PublicKey} {sets : List (SignatureSetDeserialized PublicKey)}

/-! ## Reading the public keys -/

theorem exists_ok_of_mapM {ε α β : Type} {f : α → Except ε β} {l : List α} {bs : List β}
    (h : l.mapM f = .ok bs) : ∀ a ∈ l, ∃ b, f a = .ok b := by
  intro a ha
  obtain ⟨b, -, hb⟩ := exists_of_forall₂ (forall₂_of_mapM h).flip a ha
  exact ⟨b, hb⟩

/-- Every public key of the request can be read. -/
def BlsWorkReq.Readable (bls : Bls PublicKey Signature) (workReq : BlsWorkReq) : Prop :=
  ∀ set ∈ workReq.sets, ∃ pubkey, bls.publicKeyFromBytes set.publicKey = .ok pubkey

theorem BlsWorkReq.readable_iff {workReq : BlsWorkReq} :
    workReq.Readable bls ↔ ∃ sets, workReq.sets.mapM (deserializeSet bls) = .ok sets := by
  constructor
  · intro h
    refine exists_mapM_ok fun set hset => ?_
    obtain ⟨pubkey, hpubkey⟩ := h set hset
    exact ⟨⟨pubkey, set.message, set.signature⟩, by rw [deserializeSet, hpubkey]; rfl⟩
  · rintro ⟨sets, hsets⟩ set hset
    obtain ⟨deserialized, hset⟩ := exists_ok_of_mapM hsets set hset
    obtain ⟨pubkey, hpubkey, -⟩ := eq_ok_of_bind hset
    exact ⟨pubkey, hpubkey⟩

theorem splitWork_ok (h : ∀ workReq ∈ workReqArr, workReq.Readable bls) (i : Nat) :
    ∃ batchableSets nonBatchableSets,
      splitWork bls i workReqArr = .ok (batchableSets, nonBatchableSets) ∧
        ∀ k < workReqArr.length, ∃ work ∈ batchableSets ++ nonBatchableSets, work.idx = i + k := by
  induction workReqArr generalizing i with
  | nil => exact ⟨[], [], rfl, fun k hk => absurd hk (Nat.not_lt_zero k)⟩
  | cons workReq workReqArr ih =>
    rw [List.forall_mem_cons] at h
    obtain ⟨sets, hsets⟩ := BlsWorkReq.readable_iff.mp h.1
    obtain ⟨batchable, nonBatchable, hsplit, hcovers⟩ := ih h.2 (i + 1)
    have hcovers' : ∀ k < workReqArr.length + 1, ∃ work ∈ ⟨i, sets⟩ :: (batchable ++ nonBatchable),
        work.idx = i + k := by
      rintro (_ | k) hk
      · exact ⟨_, List.mem_cons_self, rfl⟩
      · obtain ⟨work, hwork, hidx⟩ := hcovers k (by omega)
        exact ⟨work, List.mem_cons_of_mem _ hwork, by omega⟩
    rw [splitWork, hsets, ok_bind, hsplit, ok_bind]
    dsimp only
    split_ifs
    · exact ⟨_, _, rfl, hcovers'⟩
    · refine ⟨_, _, rfl, fun k hk => ?_⟩
      obtain ⟨work, hwork, hidx⟩ := hcovers' k hk
      exact ⟨work, List.perm_middle.mem_iff.mpr hwork, hidx⟩

theorem readable_of_splitWork {i : Nat}
    {split : List (WorkSets PublicKey) × List (WorkSets PublicKey)}
    (h : splitWork bls i workReqArr = .ok split) :
    ∀ workReq ∈ workReqArr, workReq.Readable bls := by
  induction workReqArr generalizing i split with
  | nil => exact fun _ h => absurd h List.not_mem_nil
  | cons workReq workReqArr ih =>
    obtain ⟨sets, hsets, h⟩ := eq_ok_of_bind h
    obtain ⟨rest, hrest, -⟩ := eq_ok_of_bind h
    exact List.forall_mem_cons.mpr ⟨BlsWorkReq.readable_iff.mpr ⟨sets, hsets⟩, ih hrest⟩

/-! ## Verdicts -/

/-- What is relied on of the library: many signatures are accepted exactly if each of them is. -/
def Bls.AcceptsValid (bls : Bls PublicKey Signature) : Prop :=
  ∀ sets, bls.verifyMultipleSignatures sets = .ok true ↔
    ∀ set ∈ sets, bls.verify set.2.2 set.1 set.2.1 = .ok true

theorem everySet_eq_true_iff : everySet bls sets = .ok true ↔ ∀ set ∈ sets, set.IsValid bls := by
  refine ⟨fun h => (everySet_iff h).mp rfl, fun h => ?_⟩
  induction sets with
  | nil => rfl
  | cons set sets ih =>
    rw [List.forall_mem_cons] at h
    obtain ⟨⟨sig, hsig, hverify⟩, h⟩ := h
    rw [everySet, hsig, ok_bind, hverify, ok_bind, if_pos rfl]
    exact ih h

theorem verifySignatureSetsMaybeBatch_eq_true_iff (hbls : bls.AcceptsValid) (hne : sets ≠ []) :
    verifySignatureSetsMaybeBatch bls sets = .ok true ↔ ∀ set ∈ sets, set.IsValid bls := by
  have hlen : sets.length ≠ 0 := fun h => hne (List.eq_nil_of_length_eq_zero h)
  unfold verifySignatureSetsMaybeBatch
  split_ifs
  · constructor
    · intro h
      obtain ⟨signed, hsigned, h⟩ := eq_ok_of_bind h
      refine (forall_mem_iff_of_forall₂ (forall₂_of_mapM hsigned) fun set _ sig hset => ?_).mpr
        ((hbls signed).mp h)
      obtain ⟨sig, hsig, hset⟩ := eq_ok_of_bind hset
      cases hset
      simp [SignatureSetDeserialized.IsValid, Bls.IsValid, hsig]
    · intro h
      obtain ⟨signed, hsigned⟩ := exists_mapM_ok (f := withSignature bls) fun set hset => by
        obtain ⟨sig, hsig, -⟩ := h set hset
        exact ⟨_, by rw [withSignature, hsig]; rfl⟩
      rw [hsigned, ok_bind, hbls]
      refine (forall_mem_iff_of_forall₂ (forall₂_of_mapM hsigned) fun set _ sig hset => ?_).mp h
      obtain ⟨sig, hsig, hset⟩ := eq_ok_of_bind hset
      cases hset
      simp [SignatureSetDeserialized.IsValid, Bls.IsValid, hsig]
  · exact everySet_eq_true_iff

/-- What the sets of a request give on their own. -/
def verdict (bls : Bls PublicKey Signature) (sets : List (SignatureSetDeserialized PublicKey)) :
    WorkResult :=
  match verifySignatureSetsMaybeBatch bls sets with
  | .ok isValid => .success isValid
  | .error e => .error e

theorem verdict_eq_success_true_iff (hbls : bls.AcceptsValid) (hne : sets ≠ []) :
    verdict bls sets = .success true ↔ ∀ set ∈ sets, set.IsValid bls := by
  rw [← verifySignatureSetsMaybeBatch_eq_true_iff hbls hne, verdict]
  cases verifySignatureSetsMaybeBatch bls sets <;> simp

theorem verdict_eq_error_iff {e : String} :
    verdict bls sets = .error e ↔ verifySignatureSetsMaybeBatch bls sets = .error e := by
  rw [verdict]
  cases verifySignatureSetsMaybeBatch bls sets <;> simp

/-! ## The run -/

/-- The results so far are the verdicts of their requests, and the others are still to do. -/
structure Accounts (bls : Bls PublicKey Signature) (workReqArr : List BlsWorkReq)
    (results : List (Option WorkResult)) (todo : List (WorkSets PublicKey)) : Prop where
  length : results.length = workReqArr.length
  isOf : ∀ work ∈ todo, work.IsOf bls workReqArr
  settled : ∀ (i : Nat) (result : WorkResult), results[i]? = some (some result) →
    ∃ work : WorkSets PublicKey,
      work.IsOf bls workReqArr ∧ work.idx = i ∧ result = verdict bls work.sets
  covers : ∀ i < workReqArr.length,
    (∃ result, results[i]? = some (some result)) ∨ ∃ work ∈ todo, work.idx = i

theorem Accounts.of_mem {todo' : List (WorkSets PublicKey)}
    (h : Accounts bls workReqArr results todo) (hmem : ∀ work, work ∈ todo' ↔ work ∈ todo) :
    Accounts bls workReqArr results todo' where
  length := h.length
  isOf := fun work hwork => h.isOf work ((hmem work).mp hwork)
  settled := h.settled
  covers := fun i hi => (h.covers i hi).imp_right fun htodo =>
    htodo.imp fun work hwork => ⟨(hmem work).mpr hwork.1, hwork.2⟩

theorem Accounts.settle (h : Accounts bls workReqArr results (work :: todo)) :
    Accounts bls workReqArr (results.set work.idx (some (verdict bls work.sets))) todo := by
  obtain ⟨hwork, hisOf⟩ := List.forall_mem_cons.mp h.isOf
  have hidx : work.idx < results.length := by
    obtain ⟨workReq, hget, -⟩ := hwork
    rw [h.length]
    exact (List.getElem?_eq_some_iff.mp hget).1
  refine ⟨by rw [List.length_set, h.length], hisOf, fun i result hresult => ?_, fun i hi => ?_⟩
  · by_cases heq : work.idx = i
    · subst heq
      rw [List.getElem?_set_self hidx] at hresult
      exact ⟨work, hwork, rfl, (Option.some.inj (Option.some.inj hresult)).symm⟩
    · rw [List.getElem?_set_ne heq] at hresult
      exact h.settled i result hresult
  · by_cases heq : work.idx = i
    · subst heq
      exact .inl ⟨_, List.getElem?_set_self hidx⟩
    · rw [List.getElem?_set_ne heq]
      refine (h.covers i hi).imp_right ?_
      rintro ⟨other, hother, hi⟩
      rcases List.mem_cons.mp hother with rfl | hother
      · exact absurd hi heq
      · exact ⟨other, hother, hi⟩

theorem Accounts.foldl_verifyAlone (h : Accounts bls workReqArr results todo) :
    Accounts bls workReqArr (todo.foldl (verifyAlone bls) results) [] := by
  induction todo generalizing results with
  | nil => exact h
  | cons work todo ih => exact ih h.settle

theorem Accounts.foldl_success {chunk : List (WorkSets PublicKey)}
    (h : Accounts bls workReqArr results (chunk ++ todo))
    (hvalid : ∀ work ∈ chunk, verdict bls work.sets = .success true) :
    Accounts bls workReqArr (chunk.foldl (fun results work =>
      results.set work.idx (some (.success true))) results) todo := by
  induction chunk generalizing results with
  | nil => exact h
  | cons work chunk ih =>
    obtain ⟨hwork, hchunk⟩ := List.forall_mem_cons.mp hvalid
    have hset := h.settle
    rw [hwork] at hset
    exact ih hset hchunk

theorem WorkSets.IsOf.sets_ne_nil (h : work.IsOf bls workReqArr)
    (hne : ∀ workReq ∈ workReqArr, workReq.sets ≠ []) : work.sets ≠ [] := by
  obtain ⟨workReq, hget, hsets⟩ := h
  intro hnil
  have hlen := (forall₂_of_mapM hsets).length_eq
  rw [hnil] at hlen
  exact hne workReq (List.mem_of_getElem? hget) (List.eq_nil_of_length_eq_zero hlen)

theorem Accounts.verifyChunk (hbls : bls.AcceptsValid)
    (hne : ∀ workReq ∈ workReqArr, workReq.sets ≠ []) {st : WorkState PublicKey}
    {chunk : List (WorkSets PublicKey)}
    (h : Accounts bls workReqArr st.results (chunk ++ (st.nonBatchableSets ++ todo))) :
    Accounts bls workReqArr (verifyChunk bls st chunk).results
      ((Chain.verifyChunk bls st chunk).nonBatchableSets ++ todo) := by
  have hagain : Accounts bls workReqArr st.results (st.nonBatchableSets ++ chunk ++ todo) := by
    refine h.of_mem fun work => ?_
    simp only [List.mem_append]
    tauto
  unfold Chain.verifyChunk
  split
  · next hverify =>
    refine h.foldl_success fun work hwork => ?_
    have hsets : work.sets ≠ [] := (h.isOf work (List.mem_append_left _ hwork)).sets_ne_nil hne
    rw [verdict_eq_success_true_iff hbls hsets]
    have hall : chunk.flatMap (·.sets) ≠ [] := fun hnil =>
      hsets (List.flatMap_eq_nil_iff.mp hnil work hwork)
    exact fun set hset => (verifySignatureSetsMaybeBatch_eq_true_iff hbls hall).mp hverify set
      (List.mem_flatMap.mpr ⟨work, hwork, hset⟩)
  · exact hagain
  · exact hagain

theorem Accounts.foldl_verifyChunk (hbls : bls.AcceptsValid)
    (hne : ∀ workReq ∈ workReqArr, workReq.sets ≠ []) {chunks : List (List (WorkSets PublicKey))}
    {st : WorkState PublicKey}
    (h : Accounts bls workReqArr st.results (st.nonBatchableSets ++ chunks.flatten)) :
    Accounts bls workReqArr (chunks.foldl (Chain.verifyChunk bls) st).results
      (chunks.foldl (Chain.verifyChunk bls) st).nonBatchableSets := by
  induction chunks generalizing st with
  | nil => simpa using h
  | cons chunk chunks ih =>
    refine ih (Accounts.verifyChunk hbls hne (h.of_mem fun work => ?_))
    simp only [List.flatten_cons, List.mem_append]
    tauto

theorem verifyManySignatureSets_ok (hbls : bls.AcceptsValid)
    (hne : ∀ workReq ∈ workReqArr, workReq.sets ≠ [])
    (hreadable : ∀ workReq ∈ workReqArr, workReq.Readable bls) :
    ∃ results, verifyManySignatureSets bls workReqArr = .ok results ∧
      Accounts bls workReqArr results [] := by
  obtain ⟨batchableSets, nonBatchableSets, hsplit, hcovers⟩ := splitWork_ok hreadable 0
  obtain ⟨hbatchable, hnonBatchable⟩ := splitWork_isOf [] hsplit
  rw [List.nil_append] at hbatchable hnonBatchable
  have hstart : Accounts bls workReqArr (List.replicate workReqArr.length none)
      (nonBatchableSets ++ batchableSets) := by
    refine ⟨List.length_replicate, List.forall_mem_append.mpr ⟨hnonBatchable, hbatchable⟩,
      fun i result hresult => ?_, fun i hi => .inr ?_⟩
    · rw [List.getElem?_replicate] at hresult
      split_ifs at hresult
      cases hresult
    · obtain ⟨work, hwork, hidx⟩ := hcovers i hi
      exact ⟨work, List.perm_append_comm.mem_iff.mp hwork, by omega⟩
  rw [verifyManySignatureSets, hsplit, ok_bind]
  refine ⟨_, rfl, ?_⟩
  split_ifs with hsome
  · refine Accounts.foldl_verifyAlone (Accounts.foldl_verifyChunk hbls hne ?_)
    rwa [flatten_chunkifyMaximizeChunkSize]
  · obtain rfl : batchableSets = [] := List.eq_nil_of_length_eq_zero (by omega)
    rw [List.append_nil] at hstart
    exact hstart.foldl_verifyAlone

theorem Accounts.exists_result (h : Accounts bls workReqArr results []) {i : Nat}
    {workReq : BlsWorkReq} (hget : workReqArr[i]? = some workReq) :
    ∃ sets, workReq.sets.mapM (deserializeSet bls) = .ok sets ∧
      results[i]? = some (some (verdict bls sets)) := by
  have hi := (List.getElem?_eq_some_iff.mp hget).1
  rcases h.covers i hi with ⟨result, hresult⟩ | ⟨work, hwork, -⟩
  · obtain ⟨work, ⟨workReq', hget', hsets⟩, rfl, rfl⟩ := h.settled i result hresult
    obtain rfl := Option.some.inj (hget.symm.trans hget')
    exact ⟨work.sets, hsets, hresult⟩
  · cases hwork

/-! ## One package -/

/-- Each request gets one result, at its index: the one it gets alone, which is true if and only
if its own sets are valid, and an error only if they cause one. -/
def Isolates (bls : Bls PublicKey Signature) (workReqArr : List BlsWorkReq) : Prop :=
  ∃ results, verifyManySignatureSets bls workReqArr = .ok results ∧
    results.length = workReqArr.length ∧
    ∀ (i : Nat) (workReq : BlsWorkReq), workReqArr[i]? = some workReq →
      ∃ result, results[i]? = some (some result) ∧
        verifyManySignatureSets bls [workReq] = .ok [some result] ∧
        (result = .success true ↔ ∀ set ∈ workReq.sets, set.IsValid bls) ∧
        ∀ e, result = .error e →
          (workReq.sets.mapM (deserializeSet bls) >>= verifySignatureSetsMaybeBatch bls) = .error e

theorem readable_of_verifyManySignatureSets
    (h : verifyManySignatureSets bls workReqArr = .ok results) :
    ∀ workReq ∈ workReqArr, workReq.Readable bls := by
  obtain ⟨split, hsplit, -⟩ := eq_ok_of_bind h
  exact readable_of_splitWork hsplit

theorem verifyManySignatureSets_singleton (hbls : bls.AcceptsValid) {workReq : BlsWorkReq}
    (hne : workReq.sets ≠ []) (hsets : workReq.sets.mapM (deserializeSet bls) = .ok sets) :
    verifyManySignatureSets bls [workReq] = .ok [some (verdict bls sets)] := by
  obtain ⟨results, hrun, haccounts⟩ : ∃ results,
      verifyManySignatureSets bls [workReq] = .ok results ∧ Accounts bls [workReq] results [] :=
    verifyManySignatureSets_ok hbls (List.forall_mem_singleton.mpr hne)
      (List.forall_mem_singleton.mpr (BlsWorkReq.readable_iff.mpr ⟨sets, hsets⟩))
  obtain ⟨sets', hsets', hresult⟩ := haccounts.exists_result (i := 0) rfl
  obtain rfl := Except.ok.inj (hsets.symm.trans hsets')
  obtain ⟨result, rfl⟩ := List.length_eq_one_iff.mp haccounts.length
  rw [hrun, Option.some.inj hresult]

/-- The public keys are read before any verification, and a failure is that of the whole call. -/
theorem isolates_iff (hbls : bls.AcceptsValid) (hne : ∀ workReq ∈ workReqArr, workReq.sets ≠ []) :
    Isolates bls workReqArr ↔ ∀ workReq ∈ workReqArr, ∀ set ∈ workReq.sets,
      ∃ pubkey, bls.publicKeyFromBytes set.publicKey = .ok pubkey := by
  constructor
  · rintro ⟨results, hrun, -⟩
    exact readable_of_verifyManySignatureSets hrun
  · intro hreadable
    obtain ⟨results, hrun, haccounts⟩ := verifyManySignatureSets_ok hbls hne hreadable
    refine ⟨results, hrun, haccounts.length, fun i workReq hget => ?_⟩
    have hworkReq := hne workReq (List.mem_of_getElem? hget)
    obtain ⟨sets, hsets, hresult⟩ := haccounts.exists_result hget
    have hisOf : WorkSets.IsOf bls workReqArr ⟨i, sets⟩ := ⟨workReq, hget, hsets⟩
    refine ⟨_, hresult, verifyManySignatureSets_singleton hbls hworkReq hsets, ?_, fun e he => ?_⟩
    · rw [hisOf.valid_iff hget]
      exact verdict_eq_success_true_iff hbls (hisOf.sets_ne_nil hne)
    · rw [hsets, ok_bind]
      exact verdict_eq_error_iff.mp he

end

/-! ## A key that cannot be read -/

/-- Signatures that repeat the public key; no bytes are no key and no signature. -/
def echoBls : Bls Bytes Bytes where
  aggregate pubkeys := .ok (pubkeys.flatMap id)
  toBytes := id
  publicKeyFromBytes bytes := if bytes = [] then .error "BLST_BAD_ENCODING" else .ok bytes
  signatureFromBytes bytes := if bytes = [] then .error "BLST_BAD_ENCODING" else .ok bytes
  verify signature pubkey _ := .ok (signature = pubkey)
  verifyMultipleSignatures sets := .ok (sets.all fun set => set.2.2 = set.1)

theorem echoBls_acceptsValid : echoBls.AcceptsValid := by
  intro sets
  simp [echoBls]

def echoReq (publicKey signature : Bytes) : BlsWorkReq where
  opts := ⟨true, false⟩
  sets := [⟨publicKey, [7], signature⟩]

theorem isolates_iff_echoBls :
    Isolates echoBls [echoReq [1] [1], echoReq [1] [2]] ↔
      ∀ workReq ∈ [echoReq [1] [1], echoReq [1] [2]], ∀ set ∈ workReq.sets,
        ∃ pubkey, echoBls.publicKeyFromBytes set.publicKey = .ok pubkey :=
  isolates_iff echoBls_acceptsValid (by decide)

/-- The request before one with an unreadable key gets no result, though it is valid. -/
theorem echoBls_not_isolates :
    echoBls.AcceptsValid ∧
      verifyManySignatureSets echoBls [echoReq [1] [1]] = .ok [some (.success true)] ∧
      ¬ Isolates echoBls [echoReq [1] [1], echoReq [] [1]] := by
  refine ⟨echoBls_acceptsValid, rfl, ?_⟩
  rintro ⟨results, hrun, -⟩
  cases hrun

end Lodestar.Chain
