import BtmStats.Spec.WrapperError
import Mathlib.Data.List.Induction

/-!
# `BtmStats.Proofs.WrapperError`: annotations compose

What an error shows after a sequence of annotations is said by the sequence alone: the
context texts, the details, the data given and the stack of the first call that wrapped
(`Annotated`). One lemma says what `wrap` does to each of them (`wrapWith_fields`), one what
each call does (`Annotated.apply`), and the result for a sequence is by induction from its
end, since the last call is the outermost.

The errors of `Spec.Errors`, which keep the root and the message only, are a view of these
(`toErr_wrap`).
-/

set_option autoImplicit false

namespace BtmStats.Proofs.Errors

open Spec Spec.Errors

variable {ρ δ : Type} {message : ρ → String} {asString : δ → Option String}

/-! ### Maps -/

/-- Inserting entry after entry: the last one for a key stays. Induction on the entries. -/
theorem lookup_copyItems (k : String) : ∀ (items : List (Item δ)) (m : DataMap δ),
    (copyItems items m).lookup k = (List.dlookup k items.reverse).or (m.lookup k) := by
  intro items
  induction items with
  | nil =>
    intro m
    rfl
  | cons item items ih =>
    intro m
    have hone : (List.dlookup k [item]).or (m.lookup k) = (m.insert item.1 item.2).lookup k := by
      by_cases hk : k = item.1
      · subst hk
        rw [AList.lookup_insert, List.dlookup_cons_eq]
        rfl
      · rw [AList.lookup_insert_ne hk, List.dlookup_cons_ne _ _ hk]
        rfl
    rw [List.reverse_cons, List.dlookup_append, Option.or_assoc, hone]
    exact ih _

/-- A copy has the entries of the map, whatever the order. -/
theorem lookup_copy (order : IterOrder (Item δ)) (m : DataMap δ) (k : String) :
    (copyItems (order.apply m.entries) ∅).lookup k = m.lookup k := by
  have hperm : (order.apply m.entries).reverse.Perm m.entries :=
    (List.reverse_perm _).trans (order.perm _)
  have hnodup := (List.perm_nodupKeys hperm).mpr m.nodupKeys
  rw [lookup_copyItems, AList.lookup_empty, Option.or_none]
  exact List.perm_dlookup k hnodup hperm

/-- The entries that `k1, v1, k2, v2, ...` stand for, if every key is a string and has a
value. -/
def itemsOf (asString : δ → Option String) : List δ → Option (List (Item δ))
  | [] => some []
  | [_] => none
  | k :: v :: keyval => do
      let k ← asString k
      let items ← itemsOf asString keyval
      some (⟨k, v⟩ :: items)

theorem addPairs_of_itemsOf : ∀ {keyval : List δ} {items : List (Item δ)} (m : DataMap δ),
    itemsOf asString keyval = some items →
      addPairs asString keyval m = .ok (copyItems items m) := by
  intro keyval
  induction keyval using itemsOf.induct with
  | case1 =>
    intro items m h
    cases h
    rfl
  | case2 k =>
    intro items m h
    cases h
  | case3 k v keyval ih =>
    intro items m h
    obtain ⟨key, hkey, h⟩ := Option.bind_eq_some_iff.mp h
    obtain ⟨rest, hrest, h⟩ := Option.bind_eq_some_iff.mp h
    cases h
    rw [addPairs, hkey]
    exact ih _ hrest

/-! ### What a sequence of calls says -/

namespace Call

/-- The context text, empty for data. -/
def context : Call δ → String
  | .wrap text => text
  | .wrapf text => text
  | .withDetail text => text
  | .withDetailf text => text
  | .withData _ => ""

/-- The detail. `WithDetail` skips an empty text, `WithDetailf` does not. -/
def detail? : Call δ → Option String
  | .withDetail text => if text = "" then none else some text
  | .withDetailf text => some text
  | _ => none

/-- Every call wraps, except `WithDetail` with an empty text. -/
def wraps : Call δ → Bool
  | .withDetail text => text != ""
  | _ => true

def isWithData : Call δ → Bool
  | .withData _ => true
  | _ => false

/-- The entries given. -/
def given (asString : δ → Option String) : Call δ → List (Item δ)
  | .withData keyval => (itemsOf asString keyval).getD []
  | _ => []

/-- The arguments of `WithData` come in pairs, with strings as keys. -/
def WellFormed (asString : δ → Option String) : Call δ → Prop
  | .withData keyval => (itemsOf asString keyval).isSome
  | _ => True

end Call

/-- The context texts that are not empty, first call first. -/
def contexts (sites : List (CallSite δ)) : List String :=
  (sites.map fun site => Call.context site.call).filter (· ≠ "")

def detailTexts (sites : List (CallSite δ)) : List String :=
  sites.filterMap fun site => Call.detail? site.call

/-- The stack captured by the first call that wrapped. -/
def firstStack (sites : List (CallSite δ)) : List StackFrame :=
  (sites.find? fun site => Call.wraps site.call).elim [] CallSite.stack

def givenItems (asString : δ → Option String) (sites : List (CallSite δ)) : List (Item δ) :=
  sites.flatMap fun site => Call.given asString site.call

/-- `err` is `e` after the calls `sites`. -/
structure Annotated (message : ρ → String) (asString : δ → Option String) (e : ρ)
    (sites : List (CallSite δ)) (err : GoError ρ δ) : Prop where
  root : err.root = .other e
  stack : err.stack = firstStack sites
  detail : err.details = detailTexts sites
  data_isSome : err.data.isSome = sites.any fun site => Call.isWithData site.call
  data : ∀ k, (err.data.bind fun m => m.lookup k) =
    List.dlookup k (givenItems asString sites).reverse
  error : err.error message =
    String.join ((contexts sites).reverse.map (· ++ ": ")) ++ message e
  wrapped : err.asWrapper.isSome = sites.any fun site => Call.wraps site.call

theorem annotated_nil (e : ρ) : Annotated message asString e [] (.other e) where
  root := rfl
  stack := rfl
  detail := rfl
  data_isSome := rfl
  data _ := rfl
  error := String.empty_append.symm
  wrapped := rfl

/-! ### One more call -/

/-- What `wrap` makes of an error. Only the message and, for an error that was not wrapped,
the stack are new. -/
theorem wrapWith_fields (message : ρ → String) (err : GoError ρ δ) (msg : String)
    (stack : List StackFrame) :
    (wrapWith message err msg stack).root = err.root ∧
      (wrapWith message err msg stack).stack =
        (if err.asWrapper.isSome then err.stack else stack) ∧
      (wrapWith message err msg stack).detail = err.details ∧
      (wrapWith message err msg stack).data = err.data ∧
      (wrapWith message err msg stack).msg =
        (if msg ≠ "" then msg ++ ": " else "") ++ err.error message := by
  by_cases hmsg : msg = ""
  · have hnot : ¬ msg ≠ "" := not_not.mpr hmsg
    cases err with
    | other e =>
      simp only [wrapWith, if_neg hnot, String.empty_append]
      exact ⟨rfl, rfl, rfl, rfl, rfl⟩
    | wrapper werr =>
      simp only [wrapWith, if_neg hnot, String.empty_append]
      exact ⟨rfl, rfl, rfl, rfl, rfl⟩
  · cases err with
    | other e =>
      simp only [wrapWith, if_pos hmsg]
      exact ⟨rfl, rfl, rfl, rfl, rfl⟩
    | wrapper werr =>
      simp only [wrapWith, if_pos hmsg]
      exact ⟨rfl, rfl, rfl, rfl, rfl⟩

theorem contexts_concat (sites : List (CallSite δ)) (site : CallSite δ) :
    contexts (sites ++ [site]) = contexts sites ++
      if Call.context site.call ≠ "" then [Call.context site.call] else [] := by
  rw [contexts, List.map_append, List.filter_append]
  refine congrArg (contexts sites ++ ·) ?_
  by_cases h : Call.context site.call = ""
  · simp [h]
  · simp [h]

/-- The message of a sequence with one more call. -/
theorem join_contexts_concat (sites : List (CallSite δ)) (site : CallSite δ) (tail : String) :
    String.join ((contexts (sites ++ [site])).reverse.map (· ++ ": ")) ++ tail =
      (if Call.context site.call ≠ "" then Call.context site.call ++ ": " else "") ++
        (String.join ((contexts sites).reverse.map (· ++ ": ")) ++ tail) := by
  rw [contexts_concat]
  by_cases h : Call.context site.call = ""
  · rw [if_neg (not_not.mpr h), if_neg (not_not.mpr h), List.append_nil, String.empty_append]
  · rw [if_pos h, if_pos h, List.reverse_append, List.map_append]
    show String.join ((Call.context site.call ++ ": ") :: _) ++ tail = _
    rw [String.join_cons, String.append_assoc]
    rfl

/-- The stack that counts is that of the first call that wraps. -/
theorem firstStack_concat (sites : List (CallSite δ)) (site : CallSite δ)
    (hwraps : Call.wraps site.call) :
    firstStack (sites ++ [site]) =
      if sites.any (fun site => Call.wraps site.call) then firstStack sites else site.stack := by
  rw [firstStack, List.find?_append]
  cases hfind : sites.find? fun site => Call.wraps site.call with
  | some first =>
    have hfirst := List.find?_some hfind
    have hany : sites.any (fun site => Call.wraps site.call) :=
      List.any_eq_true.mpr ⟨first, List.mem_of_find?_eq_some hfind, hfirst⟩
    rw [if_pos hany, firstStack, hfind]
    rfl
  | none =>
    have hany : ¬ sites.any (fun site => Call.wraps site.call) := by
      intro hany
      obtain ⟨x, hx, hxw⟩ := List.any_eq_true.mp hany
      exact List.find?_eq_none.mp hfind x hx hxw
    rw [if_neg hany]
    simp [hwraps]

variable {e : ρ} {sites : List (CallSite δ)} {err : GoError ρ δ}

/-- A call that wraps. Its detail is appended, and its data is `d`. -/
theorem Annotated.concat (h : Annotated message asString e sites err) (site : CallSite δ)
    (hwraps : Call.wraps site.call) {d : Option (DataMap δ)}
    (hsome : d.isSome = (err.data.isSome || Call.isWithData site.call))
    (hd : ∀ k, (d.bind fun m => m.lookup k) =
      (List.dlookup k (Call.given asString site.call).reverse).or
        (err.data.bind fun m => m.lookup k)) :
    Annotated message asString e (sites ++ [site])
      (.wrapper { wrapWith message err (Call.context site.call) site.stack with
        detail := err.details ++ (Call.detail? site.call).toList, data := d }) := by
  obtain ⟨hroot, hstack, -, -, hmsg⟩ :=
    wrapWith_fields message err (Call.context site.call) site.stack
  constructor
  · exact hroot.trans h.root
  · show (wrapWith message err (Call.context site.call) site.stack).stack = _
    rw [hstack, h.wrapped, h.stack, firstStack_concat _ _ hwraps]
  · show err.details ++ (Call.detail? site.call).toList = _
    rw [detailTexts, List.filterMap_append, h.detail, detailTexts]
    refine congrArg (List.filterMap _ sites ++ ·) ?_
    cases hdet : Call.detail? site.call with
    | none => simp [hdet]
    | some text => simp [hdet]
  · show d.isSome = _
    rw [hsome, h.data_isSome, List.any_append]
    simp
  · intro k
    have hgiven : givenItems asString (sites ++ [site]) =
        givenItems asString sites ++ Call.given asString site.call := by simp [givenItems]
    show (d.bind fun m => m.lookup k) = _
    rw [hd, h.data, ← List.dlookup_append, ← List.reverse_append, hgiven]
  · show (wrapWith message err (Call.context site.call) site.stack).msg = _
    rw [hmsg, h.error, join_contexts_concat]
  · rw [List.any_append]
    simp [hwraps, GoError.asWrapper]

variable {site : CallSite δ}

/-- A call that does not wrap: `WithDetail` with an empty text. -/
theorem Annotated.skip (h : Annotated message asString e sites err)
    (hskip : site.call = .withDetail "") : Annotated message asString e (sites ++ [site]) err := by
  have hwraps : Call.wraps site.call = false := by rw [hskip]; rfl
  have hdata : Call.isWithData site.call = false := by rw [hskip]; rfl
  constructor
  · exact h.root
  · rw [h.stack, firstStack, firstStack, List.find?_append]
    simp [hwraps]
  · rw [h.detail, detailTexts, detailTexts, List.filterMap_append]
    simp [hskip, Call.detail?]
  · rw [h.data_isSome, List.any_append]
    simp [hdata]
  · intro k
    have hgiven : givenItems asString (sites ++ [site]) = givenItems asString sites := by
      simp [givenItems, hskip, Call.given]
    rw [h.data, hgiven]
  · rw [h.error, join_contexts_concat, hskip]
    exact String.empty_append.symm
  · rw [h.wrapped, List.any_append]
    simp [hwraps]

/-- A call that wraps and gives no data leaves the data as it is. -/
theorem Annotated.concat_of_not_withData (h : Annotated message asString e sites err)
    (site : CallSite δ) (hwraps : Call.wraps site.call)
    (hdata : Call.isWithData site.call = false) {werr : WrapperError (GoError ρ δ) δ}
    (hwerr : wrapWith message err (Call.context site.call) site.stack = werr) :
    Annotated message asString e (sites ++ [site])
      (.wrapper { werr with detail := werr.detail ++ (Call.detail? site.call).toList }) := by
  obtain ⟨-, -, hkeepDetail, hkeepData, -⟩ :=
    wrapWith_fields message err (Call.context site.call) site.stack
  have hgiven : Call.given asString site.call = [] := by
    cases hcall : site.call with
    | withData keyval =>
      rw [hcall] at hdata
      cases hdata
    | wrap text => rfl
    | wrapf text => rfl
    | withDetail text => rfl
    | withDetailf text => rfl
  have hnext := h.concat site hwraps (d := err.data) (by rw [hdata, Bool.or_false])
    (fun k => by rw [hgiven]; rfl)
  rw [← hkeepDetail, ← hkeepData, hwerr] at hnext
  exact hnext

/-- `Wrap` and `Wrapf`. -/
theorem Annotated.wrapText (h : Annotated message asString e sites err) {text : String}
    (hcall : site.call = .wrap text ∨ site.call = .wrapf text) :
    Annotated message asString e (sites ++ [site])
      (.wrapper (wrapWith message err text site.stack)) := by
  have hsays : Call.wraps site.call = true ∧ Call.isWithData site.call = false ∧
      Call.context site.call = text ∧ Call.detail? site.call = none := by
    rcases hcall with hcall | hcall
    · rw [hcall]
      exact ⟨rfl, rfl, rfl, rfl⟩
    · rw [hcall]
      exact ⟨rfl, rfl, rfl, rfl⟩
  obtain ⟨hwraps, hdata, rfl, hdetail⟩ := hsays
  have hnext := h.concat_of_not_withData site hwraps hdata rfl
  rw [hdetail, Option.toList_none, List.append_nil] at hnext
  exact hnext

/-- `WithDetailf`, and `WithDetail` with a text. -/
theorem Annotated.addDetail (h : Annotated message asString e sites err) {text : String}
    (hcall : site.call = .withDetail text ∧ text ≠ "" ∨ site.call = .withDetailf text) :
    Annotated message asString e (sites ++ [site]) (addDetail message err text site.stack) := by
  have hsays : Call.wraps site.call = true ∧ Call.isWithData site.call = false ∧
      Call.context site.call = text ∧ Call.detail? site.call = some text := by
    rcases hcall with ⟨hcall, htext⟩ | hcall
    · rw [hcall]
      exact ⟨bne_iff_ne.mpr htext, rfl, rfl, if_neg htext⟩
    · rw [hcall]
      exact ⟨rfl, rfl, rfl, rfl⟩
  obtain ⟨hwraps, hdata, hcontext, hdetail⟩ := hsays
  have hnext := h.concat_of_not_withData site hwraps hdata (by rw [hcontext])
  rw [hdetail] at hnext
  exact hnext

/-- `WithData`: the copy of the old data, and the pairs over it. -/
theorem Annotated.addData (h : Annotated message asString e sites err) {keyval : List δ}
    (hcall : site.call = .withData keyval) {items : List (Item δ)}
    (hitems : itemsOf asString keyval = some items) :
    Annotated message asString e (sites ++ [site])
      (.wrapper { wrapWith message err "" site.stack with
        data := some (copyItems items
          (copyItems (site.order.apply (err.data.elim [] AList.entries)) ∅)) }) := by
  have hgiven : Call.given asString site.call = items := by
    rw [hcall]
    show (itemsOf asString keyval).getD [] = items
    rw [hitems]
    rfl
  have hcopy : ∀ k, (copyItems (site.order.apply (err.data.elim [] AList.entries)) ∅).lookup k =
      err.data.bind fun m => m.lookup k := by
    intro k
    cases hdata : err.data with
    | none =>
      -- There is nothing to copy.
      exact lookup_copy site.order ∅ k
    | some m => exact lookup_copy site.order m k
  have hnext := h.concat site (by rw [hcall]; rfl)
    (d := some (copyItems items (copyItems (site.order.apply (err.data.elim [] AList.entries)) ∅)))
    (by rw [hcall]; exact (Bool.or_true _).symm) (fun k => by
      rw [hgiven, ← hcopy k]
      exact lookup_copyItems k items _)
  obtain ⟨-, -, hkeepDetail, -, -⟩ := wrapWith_fields message err "" site.stack
  rw [hcall] at hnext
  simpa only [Call.context, Call.detail?, Option.toList_none, List.append_nil,
    ← hkeepDetail] using hnext

/-- Each of the five functions does what its call says. -/
theorem Annotated.apply (h : Annotated message asString e sites err)
    (hform : Call.WellFormed asString site.call) :
    ∃ err', site.apply message asString (some err) = .ok (some err') ∧
      Annotated message asString e (sites ++ [site]) err' := by
  rw [CallSite.apply]
  cases hcall : site.call with
  | wrap text => exact ⟨_, rfl, h.wrapText (.inl hcall)⟩
  | wrapf text => exact ⟨_, rfl, h.wrapText (.inr hcall)⟩
  | withDetail text =>
    by_cases htext : text = ""
    · refine ⟨err, ?_, h.skip (htext ▸ hcall)⟩
      simp only [withDetail, Option.map_some, if_pos htext]
    · refine ⟨_, ?_, h.addDetail (.inl ⟨hcall, htext⟩)⟩
      simp only [withDetail, Option.map_some, if_neg htext]
  | withDetailf text => exact ⟨_, rfl, h.addDetail (.inr hcall)⟩
  | withData keyval =>
    rw [hcall] at hform
    obtain ⟨items, hitems⟩ := Option.isSome_iff_exists.mp hform
    refine ⟨_, ?_, h.addData hcall hitems⟩
    simp only [withData, addPairs_of_itemsOf _ hitems, bind, Except.bind]

/-! ### Sequences of calls -/

/-- Induction from the end of the sequence. -/
theorem annotated_applyAll (message : ρ → String) (e : ρ) (sites : List (CallSite δ))
    (hform : ∀ site ∈ sites, Call.WellFormed asString site.call) :
    ∃ err, applyAll message asString sites (some (.other e)) = .ok (some err) ∧
      Annotated message asString e sites err := by
  induction sites using List.reverseRecOn with
  | nil => exact ⟨.other e, rfl, annotated_nil e⟩
  | append_singleton sites site ih =>
    obtain ⟨err, hrun, herr⟩ := ih fun s hs => hform s (List.mem_append_left _ hs)
    obtain ⟨err', hstep, herr'⟩ := herr.apply (hform site (by simp))
    refine ⟨err', ?_, herr'⟩
    rw [applyAll] at hrun ⊢
    rw [List.foldlM_append, hrun]
    show [site].foldlM (fun err site => CallSite.apply message asString site err) (some err) =
      .ok (some err')
    rw [List.foldlM_cons, hstep]
    rfl

/-- `Sub` takes the root from one error and the rest from the other, which must be
wrapped. -/
theorem sub_spec {err : GoError ρ δ} (hwrapped : err.asWrapper.isSome) (r : GoError ρ δ)
    (stack : List StackFrame) :
    ∃ err', sub message (some r) (some err) stack = some err' ∧ err'.root = r.root ∧
      err'.stack = err.stack ∧ err'.detail = err.detail ∧ err'.data = err.data := by
  cases err with
  | other e => cases hwrapped
  | wrapper werr =>
    obtain ⟨hroot, hstack, hdetail, hdata, -⟩ := wrapWith_fields message
      (.wrapper { werr with root := r.root, msg := r.error message }) werr.msg stack
    refine ⟨_, rfl, hroot, hstack, ?_, hdata⟩
    exact congrArg ("; ".intercalate ·) hdetail

/-- After any sequence of calls, every part of the error is what the sequence says, and `Sub`
replaces the root alone. -/
theorem annotations_compose (e : ρ) (sites : List (CallSite δ))
    (hform : ∀ site ∈ sites, Call.WellFormed asString site.call) :
    ∃ err, applyAll message asString sites (some (.other e)) = .ok (some err) ∧
      err.root = .other e ∧ err.stack = firstStack sites ∧
      err.detail = "; ".intercalate (detailTexts sites) ∧
      (err.data.isSome = sites.any fun site => Call.isWithData site.call) ∧
      (∀ k, (err.data.bind fun m => m.lookup k) =
        List.dlookup k (givenItems asString sites).reverse) ∧
      err.error message = String.join ((contexts sites).reverse.map (· ++ ": ")) ++ message e ∧
      ((sites.any fun site => Call.wraps site.call) → ∀ (r : GoError ρ δ) (stack : List StackFrame),
        ∃ err', sub message (some r) (some err) stack = some err' ∧ err'.root = r.root ∧
          err'.stack = err.stack ∧ err'.detail = err.detail ∧ err'.data = err.data) := by
  obtain ⟨err, hrun, h⟩ := annotated_applyAll message e sites hform
  refine ⟨err, hrun, h.root, h.stack, congrArg ("; ".intercalate ·) h.detail, h.data_isSome, h.data,
    h.error, fun hwraps r stack => ?_⟩
  exact sub_spec (h.wrapped.trans hwraps) r stack

/-- An error with two contexts, a detail and data. -/
theorem annotations_compose_sample :
    ∃ err : GoError String String,
      applyAll id some
        [⟨.wrap "reading block", [], ⟨id, List.Perm.refl⟩⟩,
          ⟨.withDetail "height 7", [], ⟨id, List.Perm.refl⟩⟩,
          ⟨.withData ["peer", "a"], [], ⟨id, List.Perm.refl⟩⟩] (some (.other "EOF")) =
        .ok (some err) ∧
      err.root = .other "EOF" ∧ err.detail = "height 7" ∧
      (err.data.bind fun m => m.lookup "peer") = some "a" ∧
      err.error id = "height 7: reading block: EOF" := by
  obtain ⟨err, hrun, hroot, -, hdetail, -, hdata, herror, -⟩ := @annotations_compose _ _
    id some "EOF" [⟨.wrap "reading block", [], ⟨id, List.Perm.refl⟩⟩,
      ⟨.withDetail "height 7", [], ⟨id, List.Perm.refl⟩⟩,
      ⟨.withData ["peer", "a"], [], ⟨id, List.Perm.refl⟩⟩] (by
        simp [Call.WellFormed, itemsOf])
  refine ⟨err, hrun, hroot, hdetail, (hdata "peer").trans ?_, herror.trans ?_⟩
  · decide
  · decide

/-! ### The errors of the other modules -/

/-- The root and the message of an error. -/
def toErr (err : GoError RootErr δ) : Option Err :=
  match err.root with
  | .other r => some ⟨r, err.error RootErr.text⟩
  | .wrapper _ => none

/-- `Wrap` is the `wrap` of `Spec.Errors` on the root and the message. -/
theorem toErr_wrap (err : GoError RootErr δ) (text : String) (stack : List StackFrame) :
    toErr (.wrapper (wrapWith RootErr.text err text stack)) = (toErr err).map (·.wrap text) := by
  obtain ⟨hroot, -, -, -, hmsg⟩ := wrapWith_fields RootErr.text err text stack
  have herror : (GoError.wrapper (wrapWith RootErr.text err text stack)).error RootErr.text =
      (if text ≠ "" then text ++ ": " else "") ++ err.error RootErr.text := hmsg
  have hroot' : (GoError.wrapper (wrapWith RootErr.text err text stack)).root = err.root := hroot
  rw [toErr, toErr, hroot', herror]
  cases err.root with
  | wrapper werr => rfl
  | other r =>
    by_cases htext : text = ""
    · simp [Err.wrap, htext]
    · simp [Err.wrap, htext]

end BtmStats.Proofs.Errors
