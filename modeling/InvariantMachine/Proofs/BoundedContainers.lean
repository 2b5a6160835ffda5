import Mathlib
import InvariantMachine.Proofs.Parts
import InvariantMachine.Registration.Basins

/-!
# Containers that never overfill

A string pool and a basin distribution are grown call by call, and refused calls lie among those
that are accepted. What they hold is said by a rule for lists, one call after another: a call that
would pass a limit is passed over, every other call does all that it asks for. By this rule no limit
is ever passed, and what was accepted stays where it was put.
-/

namespace InvariantMachine

/-! ### String pools -/

/-- Another text fits texts that are stored. -/
def HasRoom (stored : List String) (text : String) : Prop :=
  stored.length < 4096 ∧ totalBytes stored + text.utf8ByteSize ≤ 65536

instance (stored : List String) (text : String) : Decidable (HasRoom stored text) :=
  inferInstanceAs (Decidable (_ ∧ _))

/-- The texts that are stored once one more was offered. -/
def storeText (stored : List String) (text : String) : List String :=
  if HasRoom stored text then stored ++ [text] else stored

namespace StringPool

variable {pool pool' : StringPool} {text : String} {texts : List String}

/-- The answer to a call and the pool after it. -/
def internCall (pool : StringPool) (text : String) :
    Except CapacityExceeded UInt32 × StringPool :=
  match pool.intern text with
  | .ok (k, pool') => (.ok k, pool')
  | .error e => (.error e, pool)

/-- The answers to calls in order and the pool after them. -/
def internCalls (pool : StringPool) : List String →
    List (Except CapacityExceeded UInt32) × StringPool
  | [] => ([], pool)
  | text :: texts =>
    let (answer, pool') := pool.internCall text
    let (answers, last) := pool'.internCalls texts
    (answer :: answers, last)

/-- The pool holds the given texts within both limits and counts their bytes. -/
structure Stores (pool : StringPool) (stored : List String) : Prop where
  toList_eq : pool.toList = stored
  byteSize_eq : pool.byteSize = totalBytes stored
  length_le : stored.length ≤ 4096
  totalBytes_le : totalBytes stored ≤ 65536

/-- Why a text is refused; the count of texts is looked at first. -/
def refusal (stored : List String) : CapacityExceeded :=
  if stored.length < 4096 then ⟨.stringPoolBytes, 65536⟩ else ⟨.stringPool, 4096⟩

theorem intern_of_hasRoom (h : HasRoom pool.toList text) :
    ∃ pool', pool.intern text = .ok (UInt32.ofNat pool.toList.length, pool') ∧
      pool'.toList = pool.toList ++ [text] := by
  obtain ⟨k, pool', hintern⟩ := exists_intern h.1 h.2
  obtain ⟨-, -, rfl, hlist⟩ := intern_eq_ok hintern
  exact ⟨pool', hintern, hlist⟩

theorem intern_of_not_hasRoom (h : ¬HasRoom pool.toList text) :
    pool.intern text = .error (refusal pool.toList) := by
  have hcount : pool.toList.length = pool.strings.size := rfl
  have hbytes : totalBytes pool.toList = pool.byteSize := pool.byteSize_eq.symm
  unfold intern refusal
  rw [HasRoom, hcount, hbytes] at h
  rw [hcount]
  by_cases hfull : maxStrings ≤ pool.strings.size
  · have hcount' : ¬pool.strings.size < 4096 := Nat.not_lt.mpr hfull
    rw [dif_pos hfull, if_neg hcount']
    rfl
  · have hcount' : pool.strings.size < 4096 := Nat.lt_of_not_le hfull
    have hover : maxStringBytes < pool.byteSize + text.utf8ByteSize :=
      Nat.lt_of_not_le fun hle => h ⟨hcount', hle⟩
    rw [dif_neg hfull, dif_pos hover, if_pos hcount']
    rfl

theorem toList_internCall (pool : StringPool) (text : String) :
    (pool.internCall text).2.toList = storeText pool.toList text := by
  unfold internCall storeText
  by_cases h : HasRoom pool.toList text
  · obtain ⟨pool', hintern, hlist⟩ := intern_of_hasRoom h
    rw [hintern, if_pos h]
    exact hlist
  · rw [intern_of_not_hasRoom h, if_neg h]

theorem toList_internCalls (pool : StringPool) (texts : List String) :
    (pool.internCalls texts).2.toList = texts.foldl storeText pool.toList := by
  induction texts generalizing pool with
  | nil => rfl
  | cons text texts ih =>
    rw [List.foldl_cons, ← toList_internCall]
    exact ih _

theorem indices_internCalls (pool : StringPool) (texts : List String) :
    List.range pool.toList.length ++
        ((pool.internCalls texts).1.filterMap Except.toOption).map UInt32.toNat =
      List.range (texts.foldl storeText pool.toList).length := by
  induction texts generalizing pool with
  | nil => exact List.append_nil _
  | cons text texts ih =>
    rw [List.foldl_cons, ← toList_internCall, ← ih]
    by_cases h : HasRoom pool.toList text
    · obtain ⟨pool', hintern, hlist⟩ := intern_of_hasRoom h
      have hcall : pool.internCall text = (.ok (UInt32.ofNat pool.toList.length), pool') := by
        rw [internCall, hintern]
      have hindex : (UInt32.ofNat pool.toList.length).toNat = pool.toList.length :=
        UInt32.toNat_ofNat_of_lt' (h.1.trans (by decide))
      rw [internCalls, hcall, hlist, List.length_append, List.length_singleton, List.range_succ]
      simp [Except.toOption, hindex]
    · have hcall : pool.internCall text = (.error (refusal pool.toList), pool) := by
        rw [internCall, intern_of_not_hasRoom h]
      rw [internCalls, hcall]
      rfl

theorem get?_eq (pool : StringPool) (k : UInt32) : pool.get? k = pool.toList[k.toNat]? := by
  rw [get?, toList, Array.getElem?_toList]

end StringPool

theorem prefix_foldl_storeText (stored texts : List String) :
    stored <+: texts.foldl storeText stored := by
  induction texts generalizing stored with
  | nil => exact List.prefix_rfl
  | cons text texts ih =>
    refine List.IsPrefix.trans ?_ (ih _)
    unfold storeText
    split
    · exact List.prefix_append stored [text]
    · exact List.prefix_rfl

theorem storeText_within {stored : List String} (text : String)
    (h : stored.length ≤ 4096 ∧ totalBytes stored ≤ 65536) :
    (storeText stored text).length ≤ 4096 ∧ totalBytes (storeText stored text) ≤ 65536 := by
  unfold storeText
  split
  · rename_i hroom
    rw [List.length_append, totalBytes_append]
    exact ⟨hroom.1, by simpa [totalBytes] using hroom.2⟩
  · exact h

theorem foldl_storeText_within {stored : List String} (texts : List String)
    (h : stored.length ≤ 4096 ∧ totalBytes stored ≤ 65536) :
    (texts.foldl storeText stored).length ≤ 4096 ∧
      totalBytes (texts.foldl storeText stored) ≤ 65536 := by
  induction texts generalizing stored with
  | nil => exact h
  | cons text texts ih => exact ih (storeText_within text h)

/-! ### Basin distributions -/

inductive BasinEdit where
  /-- Puts so many equally probable basins in place of all. -/
  | uniform (n : Nat)
  | push (basin : Basin)
  /-- Puts a list in place of all. -/
  | distribution (entries : List Basin)
  /-- Writes to entries that are there, by index. -/
  | overwrite (writes : List (Basin × Nat))

namespace Basins

variable {b : Basins} {entries : List Basin}

/-- The distribution of a list of basins, if it is short enough. -/
def ofList (basins : List Basin) : Except CapacityExceeded Basins :=
  if h : basins.length ≤ maxBasins then .ok ⟨basins, h⟩ else .error exceeded

theorem push_eq_ofList (b : Basins) (basin : Basin) :
    b.push basin = ofList (b.toList ++ [basin]) := by
  have hlength : (b.toList ++ [basin]).length = b.size + 1 := List.length_append
  unfold push ofList
  by_cases h : b.size < maxBasins
  · rw [dif_pos h, dif_pos (hlength.trans_le h)]
  · rw [dif_neg h, dif_neg (hlength.symm ▸ h)]

theorem pushAll_of_fits (h : b.size + entries.length ≤ 64) :
    ∃ b', b.pushAll entries = (.ok (), b') ∧ b'.toList = b.toList ++ entries := by
  induction entries generalizing b with
  | nil => exact ⟨b, rfl, (List.append_nil _).symm⟩
  | cons basin rest ih =>
    rw [List.length_cons] at h
    have hfits : (b.toList ++ [basin]).length ≤ maxBasins := by
      rw [List.length_append, List.length_singleton]
      change b.size + 1 ≤ 64
      omega
    have hpush : b.push basin = .ok ⟨b.toList ++ [basin], hfits⟩ :=
      (push_eq_ofList b basin).trans (dif_pos hfits)
    have hrest : (⟨b.toList ++ [basin], hfits⟩ : Basins).size + rest.length ≤ 64 := by
      rw [size, List.length_append, List.length_singleton]
      change b.size + 1 + rest.length ≤ 64
      omega
    obtain ⟨b', hpushAll, hlist⟩ := ih hrest
    refine ⟨b', ?_, ?_⟩
    · rw [pushAll, hpush]
      exact hpushAll
    · rw [hlist, List.append_assoc]
      rfl

theorem pushAll_of_not_fits (h : 64 < b.size + entries.length) :
    (b.pushAll entries).1 = .error exceeded := by
  induction entries generalizing b with
  | nil => exact absurd b.length_le (Nat.not_le.mpr h)
  | cons basin rest ih =>
    rw [List.length_cons] at h
    by_cases hfits : (b.toList ++ [basin]).length ≤ maxBasins
    · have hpush : b.push basin = .ok ⟨b.toList ++ [basin], hfits⟩ :=
        (push_eq_ofList b basin).trans (dif_pos hfits)
      rw [pushAll, hpush]
      apply ih
      rw [size, List.length_append, List.length_singleton]
      change 64 < b.size + 1 + rest.length
      omega
    · have hpush : b.push basin = .error exceeded :=
        (push_eq_ofList b basin).trans (dif_neg hfits)
      rw [pushAll, hpush]

/-- The guard covers every refusal of an append, so nothing is emptied and then not refilled. -/
theorem refill_eq_ofList (b : Basins) (entries : List Basin) :
    b.refill entries =
      match ofList entries with
      | .ok b' => (.ok (), b')
      | .error e => (.error e, b) := by
  unfold refill ofList
  by_cases h : entries.length ≤ maxBasins
  · have hfits : empty.size + entries.length ≤ 64 := (Nat.zero_add _).trans_le h
    obtain ⟨b', hpushAll, hlist⟩ := pushAll_of_fits hfits
    rw [if_neg (Nat.not_lt.mpr h), dif_pos h, hpushAll]
    obtain ⟨_, _⟩ := b'
    obtain rfl := hlist
    rfl
  · rw [if_pos (Nat.lt_of_not_le h), dif_neg h]

/-- Equally probable basins, of weights that grow by tenths from one. -/
def equalBasins (n : Nat) : List Basin :=
  (List.range n).map fun i => ⟨1 / Binary64.ofNat n, 1 + 0.1 * Binary64.ofNat i⟩

theorem pushEqual_eq_pushAll (n index : Nat) (b : Basins) (left : Nat) :
    b.pushEqual n index left =
      match b.pushAll ((List.range' index left).map (equalBasin n)) with
      | (.ok _, b') => .ok b'
      | (.error e, _) => .error e := by
  induction left generalizing index b with
  | zero => rfl
  | succ left ih =>
    rw [List.range'_succ, List.map_cons, pushEqual, pushAll]
    cases b.push (equalBasin n index) with
    | error e => rfl
    | ok b' => exact ih (index + 1) b'

/-- The uniform distribution is what appending its basins one by one to an empty one comes to. -/
theorem uniform_eq_pushAll (n : Nat) :
    uniform n =
      match empty.pushAll (equalBasins n) with
      | (.ok _, b) => .ok b
      | (.error e, _) => .error e := by
  have hbasins : equalBasins n = (List.range' 0 n).map (equalBasin n) := by
    rw [← List.range_eq_range']
    rfl
  rw [hbasins]
  exact pushEqual_eq_pushAll n 0 empty n

theorem uniform_of_le {n : Nat} (h : (equalBasins n).length ≤ 64) :
    uniform n = .ok ⟨equalBasins n, h⟩ := by
  have hsize : empty.size + (equalBasins n).length = (equalBasins n).length := Nat.zero_add _
  obtain ⟨⟨_, _⟩, hpushAll, rfl⟩ := pushAll_of_fits (hsize.trans_le h)
  rw [uniform_eq_pushAll, hpushAll]
  rfl

theorem uniform_of_lt {n : Nat} (h : 64 < (equalBasins n).length) :
    uniform n = .error exceeded := by
  have hsize : empty.size + (equalBasins n).length = (equalBasins n).length := Nat.zero_add _
  have hrefused := pushAll_of_not_fits (h.trans_eq hsize.symm)
  rw [uniform_eq_pushAll]
  generalize empty.pushAll (equalBasins n) = result at hrefused ⊢
  obtain ⟨answer, b'⟩ := result
  obtain rfl : answer = .error exceeded := hrefused
  rfl

end Basins

namespace BasinEdit

variable {b : Basins} {entries : List Basin} {edit : BasinEdit}

/-- The answer to an edit and the distribution after it. -/
def perform (b : Basins) : BasinEdit → Except CapacityExceeded Unit × Basins
  | uniform n =>
    match Basins.uniform n with
    | .ok b' => (.ok (), b')
    | .error e => (.error e, b)
  | push basin =>
    match b.push basin with
    | .ok b' => (.ok (), b')
    | .error e => (.error e, b)
  | distribution entries => b.refill entries
  | overwrite writes => (.ok (), writes.foldl (fun b write => b.set write.2 write.1) b)

/-- What an edit makes of entries if it is accepted. -/
def outcome (entries : List Basin) : BasinEdit → List Basin
  | uniform n => Basins.equalBasins n
  | push basin => entries ++ [basin]
  | distribution entries' => entries'
  | overwrite writes => writes.foldl (fun l write => l.set write.2 write.1) entries

/-- What an edit leaves of entries: one that would make more than sixty-four is passed over. -/
def apply (entries : List Basin) (edit : BasinEdit) : List Basin :=
  if (edit.outcome entries).length ≤ 64 then edit.outcome entries else entries

theorem toList_foldl_set (b : Basins) (writes : List (Basin × Nat)) :
    (writes.foldl (fun b write => b.set write.2 write.1) b).toList =
      writes.foldl (fun l write => l.set write.2 write.1) b.toList := by
  induction writes generalizing b with
  | nil => rfl
  | cons write writes ih => exact ih _

theorem perform_of_le (h : (edit.outcome b.toList).length ≤ 64) :
    ∃ b', edit.perform b = (.ok (), b') ∧ b'.toList = edit.outcome b.toList := by
  cases edit with
  | uniform n =>
    refine ⟨⟨Basins.equalBasins n, h⟩, ?_, rfl⟩
    rw [perform, Basins.uniform_of_le h]
  | push basin =>
    have hpush : b.push basin = .ok ⟨b.toList ++ [basin], h⟩ :=
      (b.push_eq_ofList basin).trans (dif_pos h)
    refine ⟨⟨b.toList ++ [basin], h⟩, ?_, rfl⟩
    rw [perform, hpush]
  | distribution entries =>
    have hlist : Basins.ofList entries = .ok ⟨entries, h⟩ := dif_pos h
    refine ⟨⟨entries, h⟩, ?_, rfl⟩
    rw [perform, Basins.refill_eq_ofList, hlist]
  | overwrite writes => exact ⟨_, rfl, toList_foldl_set b writes⟩

theorem perform_of_lt (h : 64 < (edit.outcome b.toList).length) :
    edit.perform b = (.error Basins.exceeded, b) := by
  have hnot := Nat.not_le.mpr h
  cases edit with
  | uniform n =>
    rw [perform, Basins.uniform_of_lt h]
  | push basin =>
    have hpush : b.push basin = .error Basins.exceeded :=
      (b.push_eq_ofList basin).trans (dif_neg hnot)
    rw [perform, hpush]
  | distribution entries =>
    have hlist : Basins.ofList entries = .error Basins.exceeded := dif_neg hnot
    rw [perform, Basins.refill_eq_ofList, hlist]
  | overwrite writes =>
    rw [outcome, ← toList_foldl_set] at h
    exact absurd (Basins.length_le _) (Nat.not_le.mpr h)

theorem toList_perform (b : Basins) (edit : BasinEdit) :
    (edit.perform b).2.toList = edit.apply b.toList := by
  unfold apply
  split
  · rename_i h
    obtain ⟨b', hperform, hlist⟩ := perform_of_le h
    rw [hperform, hlist]
  · rename_i h
    rw [perform_of_lt (Nat.lt_of_not_le h)]

/-- Writing entries in order, from an index on, puts them in place of as many others. -/
theorem foldl_set_zipIdx (done entries entries' : List Basin)
    (h : entries'.length = entries.length) :
    (entries'.zipIdx done.length).foldl (fun l write => l.set write.2 write.1) (done ++ entries) =
      done ++ entries' := by
  induction entries' generalizing done entries with
  | nil =>
    rw [List.eq_nil_of_length_eq_zero h.symm]
    rfl
  | cons basin rest ih =>
    cases entries with
    | nil => contradiction
    | cons old entries =>
      have hset : (done ++ old :: entries).set done.length basin =
          (done ++ [basin]) ++ entries := by
        simp
      have hrest := ih (done ++ [basin]) entries (Nat.succ.inj h)
      rw [List.length_append, List.length_singleton] at hrest
      rw [List.zipIdx_cons, List.foldl_cons, hset, hrest, List.append_assoc]
      rfl

end BasinEdit

/-- The distribution after edits of its host, of which some may be refused. -/
def Basins.session (b : Basins) (edits : List BasinEdit) : Basins :=
  edits.foldl (fun b edit => (edit.perform b).2) b

theorem Basins.toList_session (b : Basins) (edits : List BasinEdit) :
    (b.session edits).toList = edits.foldl BasinEdit.apply b.toList := by
  induction edits generalizing b with
  | nil => rfl
  | cons edit edits ih =>
    rw [List.foldl_cons, ← BasinEdit.toList_perform]
    exact ih _

theorem BasinEdit.length_foldl_apply_le {entries : List Basin} (edits : List BasinEdit)
    (h : entries.length ≤ 64) : (edits.foldl BasinEdit.apply entries).length ≤ 64 := by
  induction edits generalizing entries with
  | nil => exact h
  | cons edit edits ih =>
    apply ih
    unfold BasinEdit.apply
    split
    · assumption
    · exact h

theorem StringPool.stores_internCalls (texts : List String) :
    (StringPool.empty.internCalls texts).2.Stores (texts.foldl storeText []) := by
  have hlist : (StringPool.empty.internCalls texts).2.toList = texts.foldl storeText [] :=
    StringPool.toList_internCalls .empty texts
  have hempty : ([] : List String).length ≤ 4096 ∧ totalBytes [] ≤ 65536 := by decide
  obtain ⟨hcount, hbytes⟩ := foldl_storeText_within texts hempty
  refine ⟨hlist, ?_, hcount, hbytes⟩
  rw [StringPool.byteSize_eq, ← hlist]
  rfl

theorem StringPool.get?_internCalls {pool : StringPool} {text : String}
    (hroom : HasRoom pool.toList text) (after : List String) :
    ∃ k pool', pool.internCall text = (.ok k, pool') ∧ k.toNat = pool.toList.length ∧
      (pool'.internCalls after).2.get? k = some text := by
  obtain ⟨pool', hintern, hlist⟩ := StringPool.intern_of_hasRoom hroom
  have hindex : (UInt32.ofNat pool.toList.length).toNat = pool.toList.length :=
    UInt32.toNat_ofNat_of_lt' (hroom.1.trans (by decide))
  obtain ⟨more, hmore⟩ := prefix_foldl_storeText pool'.toList after
  refine ⟨_, pool', ?_, hindex, ?_⟩
  · rw [StringPool.internCall, hintern]
  · rw [StringPool.get?_eq, StringPool.toList_internCalls, hindex, ← hmore, hlist]
    simp

/-- Whatever texts a pool was offered, it holds those that fitted, in their order and within both
limits, and gave them the indices from zero on. Another text is accepted exactly if it fits, gets
the next index, and is found there after any further calls; if it does not fit, the pool stays as it
was. Whatever edits were made to a distribution, it holds no more than sixty-four basins. An edit is
accepted exactly if it asks for no more, and then does what it asks for; if it is refused, the
distribution stays as it was. Writing in place can put any basins in place of as many. Where basins
are appended one by one, to an empty distribution or to one that was emptied for them, they are all
there in the end or the distribution stays as it was. -/
theorem containers_stay_bounded :
    (∀ before text after,
      let stored := before.foldl storeText []
      let answers := (StringPool.empty.internCalls before).1
      let pool := (StringPool.empty.internCalls before).2
      pool.Stores stored ∧
      (answers.filterMap Except.toOption).map UInt32.toNat = List.range stored.length ∧
      (HasRoom stored text → ∃ k pool', pool.internCall text = (.ok k, pool') ∧
        k.toNat = stored.length ∧ (pool'.internCalls after).2.get? k = some text) ∧
      (¬HasRoom stored text →
        pool.internCall text = (.error (StringPool.refusal stored), pool))) ∧
    (∀ (start : Basins) (edits : List BasinEdit) (edit : BasinEdit),
      let b := start.session edits
      b.toList = edits.foldl BasinEdit.apply start.toList ∧ b.toList.length ≤ 64 ∧
      ((edit.outcome b.toList).length ≤ 64 → ∃ b', edit.perform b = (.ok (), b') ∧
        b'.toList = edit.outcome b.toList) ∧
      (64 < (edit.outcome b.toList).length → edit.perform b = (.error Basins.exceeded, b)) ∧
      ∀ entries : List Basin, entries.length = b.toList.length →
        ((BasinEdit.overwrite entries.zipIdx).perform b).2.toList = entries) ∧
    (∀ b entries, Basins.refill b entries =
      match Basins.ofList entries with
      | .ok b' => (.ok (), b')
      | .error e => (.error e, b)) ∧
    ∀ n, Basins.uniform n =
      match Basins.empty.pushAll (Basins.equalBasins n) with
      | (.ok _, b) => .ok b
      | (.error e, _) => .error e := by
  refine ⟨?_, ?_, Basins.refill_eq_ofList, Basins.uniform_eq_pushAll⟩
  · intro before text after stored answers pool
    have hstores : pool.Stores stored := StringPool.stores_internCalls before
    refine ⟨hstores, StringPool.indices_internCalls .empty before, ?_, ?_⟩
    · intro hroom
      rw [← hstores.toList_eq] at hroom ⊢
      exact StringPool.get?_internCalls hroom after
    · intro hroom
      rw [← hstores.toList_eq] at hroom ⊢
      rw [StringPool.internCall, StringPool.intern_of_not_hasRoom hroom]
  · intro start edits edit b
    have hlist : b.toList = edits.foldl BasinEdit.apply start.toList := start.toList_session edits
    refine ⟨hlist, ?_, BasinEdit.perform_of_le, BasinEdit.perform_of_lt, ?_⟩
    · rw [hlist]
      exact BasinEdit.length_foldl_apply_le edits start.length_le
    · intro entries h
      rw [BasinEdit.perform, BasinEdit.toList_foldl_set]
      exact BasinEdit.foldl_set_zipIdx [] b.toList entries h

end InvariantMachine
