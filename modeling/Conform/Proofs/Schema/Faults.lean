import Conform.Proofs.Path.Following
import Conform.Proofs.Schema.Forms
import Conform.Proofs.Value.Keys

/-! Where faults stand. The path of a fault leads along the value: it names a key wherever it meets a mapping
and an index wherever it meets a sequence, as far as the value goes. A fault of a key of a table stands at the
key itself, since a key that is a string has no parts. -/

namespace Conform

@[simp] theorem Fault.path_atToken (token : Value) (cause : Cause) : (atToken token cause).path = [token] := rfl

@[simp] theorem Fault.path_under (token : Value) (f : Fault) : (f.under token).path = token :: f.path := by
  cases f
  rfl

@[simp] theorem Fault.cause_under (token : Value) (f : Fault) : (f.under token).cause = f.cause := by
  cases f
  rfl

@[simp] theorem Fault.message_under (token : Value) (f : Fault) : (f.under token).message = f.message := by
  cases f
  rfl

/-- Whether the fields of all objects in a schema have plain strings for names. -/
def Schema.hasTextNames (s : Schema) : Bool :=
  s.everywhere fun
    | .object fields => fields.all fun f => f.1.value.type == .str
    | _ => true

/-- Whether the keys of all mappings in a value are strings, and each occurs once. -/
def Value.hasStringKeys (v : Value) : Bool :=
  v.everywhere fun
    | .map _ es => es.all (fun e => e.1.type == .str) && areDistinct (es.map (·.1))
    | _ => true

/-- Each entry of a mapping is what its key, a string, leads to. -/
theorem Value.get?_of_hasStringKeys {v : Value} {es : Entries} (hv : v.hasStringKeys = true)
    (he : v.entries? = some es) {e : Value × Value} (hm : e ∈ es) :
    ∃ s, e.1 = .str s ∧ es.get? (.str s) = some e.2 := by
  obtain ⟨form, rfl⟩ := exists_eq_map he
  have h := here_of_everywhere hv
  simp only [Bool.and_eq_true, List.all_eq_true, beq_iff_eq] at h
  obtain ⟨s, hs⟩ := eq_str_of_type (h.1 e hm)
  have hn : e.1.string? = some (FieldName.text s).string := by rw [hs]; rfl
  exact ⟨s, hs, (KeyTable.get?_fieldName_eq_some_iff h.2).2 ⟨e, hm, hn, rfl⟩⟩

namespace Schema

variable {c : Settings}

theorem leads_of_child {s : Schema} {d : Nat} {v : Value} {f : Fault} (h : s.child c d v = .rejected f)
    (ih : ∀ {f}, s.check c (d + 1) v = .rejected f → v.Leads f.path) : v.Leads f.path := by
  rcases enter_eq_rejected_iff.1 h with ⟨-, rfl⟩ | ⟨-, h⟩
  · trivial
  · exact ih h

theorem leads_of_fieldFault {name : FieldName} {s : String} {v x : Value} {es : Entries} {f : Fault}
    (hn : name.value = .str s) (he : v.entries? = some es) (hx : es.get? (.str s) = some x)
    (h : x.Leads f.path) : v.Leads (fieldFault name x f).path := by
  unfold fieldFault
  split
  · rw [missing, hn]
    exact Value.leads_key he fun _ _ => trivial
  · rw [Fault.path_under, hn]
    refine Value.leads_key he fun y hy => ?_
    rwa [← Option.some.inj (hx.symm.trans hy)]

theorem leads_of_lengthFault {v : Value} {e : Elements} (he : v.elements? = some e) (n m : Nat) :
    v.Leads (lengthFault n m).path := by
  unfold lengthFault
  split <;> exact Value.leads_index he fun _ _ => trivial

theorem leads_of_rejected {s : Schema} (hs : s.hasTextNames = true) : ∀ {d : Nat} {v : Value} {f : Fault},
    v.hasStringKeys = true → s.check c d v = .rejected f → v.Leads f.path := by
  induction s using induction with
  | leaf kind =>
    intro d v f _ h
    obtain ⟨-, shown, -, rfl⟩ := rejected_of_check_leaf h
    trivial
  | literal expected =>
    intro d v f _ h
    obtain ⟨-, shownExpected, shown, -, rfl⟩ := rejected_of_check_literal h
    trivial
  | custom own =>
    intro d v f _ h
    obtain ⟨-, rfl⟩ := rejected_of_check_custom h
    trivial
  | array item ih =>
    intro d v f hv h
    rcases rejected_of_check_array h with ⟨-, rfl⟩ | ⟨e, before, x, after, f', he, hx, -, hf, rfl⟩
    · trivial
    rw [Fault.path_under]
    refine Value.leads_index he fun y hy => ?_
    obtain rfl : x = y := by simpa [hx] using hy
    have hx' := Value.everywhere_of_mem_elements hv (fun _ => rfl) he x (by simp [hx])
    exact leads_of_child hf (ih (everywhere_of_mem_parts hs item_mem_parts) hx')
  | tuple items ih =>
    intro d v f hv h
    rcases rejected_of_check_tuple h with
      ⟨-, rfl⟩ | ⟨e, he, ⟨-, -, rfl⟩ | ⟨before, p, after, f', hp, -, hf, rfl⟩⟩
    · trivial
    · exact leads_of_lengthFault he _ _
    · rw [Fault.path_under]
      have hz : (items.zip e.toList)[before.length]? = some p := by simp [hp]
      obtain ⟨hi, hx⟩ := List.getElem?_zip_eq_some.1 hz
      refine Value.leads_index he fun y hy => ?_
      obtain rfl := Option.some.inj (hx.symm.trans hy)
      have hi := List.mem_of_getElem? hi
      have hx := Value.everywhere_of_mem_elements hv (fun _ => rfl) he _ (List.mem_of_getElem? hx)
      exact leads_of_child hf (ih p.1 hi (everywhere_of_mem_parts hs hi) hx)
  | object fields ih =>
    intro d v f hv h
    rcases rejected_of_check_object h with ⟨-, rfl⟩ | ⟨es, before, g, after, he, hg, -, h⟩
    · trivial
    have hn := here_of_everywhere hs
    simp only [List.all_eq_true, beq_iff_eq] at hn
    have hg : g ∈ fields := by simp [hg]
    obtain ⟨t, ht⟩ := Value.eq_str_of_type (hn g hg)
    rcases h with ⟨-, rfl⟩ | ⟨x, f', hx, hf, rfl⟩
    · rw [missing, ht]
      exact Value.leads_key he fun _ _ => trivial
    · have hx' := Value.everywhere_of_get? hv he hx
      have hs' := everywhere_of_mem_parts hs (field_mem_parts hg)
      exact leads_of_fieldFault ht he (ht ▸ hx) (leads_of_child hf (ih g hg hs' hx'))
  | union options ih =>
    intro d v f _ h
    obtain ⟨fs, -, rfl⟩ := rejected_of_check_union h
    trivial
  | optional inner ih =>
    intro d v f hv h
    exact leads_of_child (rejected_of_check_optional h).2 (ih (everywhere_of_mem_parts hs inner_mem_parts) hv)
  | table key value ihk ihv =>
    intro d v f hv h
    have leads_of_part {part : Option Schema} (hp : ∀ t ∈ part, t.hasTextNames = true)
        (ih : ∀ t ∈ part, t.hasTextNames = true → ∀ {d : Nat} {v : Value} {f : Fault},
          v.hasStringKeys = true → t.check c d v = .rejected f → v.Leads f.path)
        {x : Value} {f : Fault} (hx : x.hasStringKeys = true) (h : checkPart c part d x = .rejected f) :
        x.Leads f.path := by
      cases part with
      | none => simp [checkPart_none] at h
      | some t =>
        rw [checkPart_some] at h
        exact leads_of_child h (ih t rfl (hp t rfl) hx)
    rcases rejected_of_check_table h with ⟨-, rfl⟩ | ⟨es, before, e, after, he, hes, -, h⟩
    · trivial
    have hm : e ∈ es := by simp [hes]
    obtain ⟨hxk, hxv⟩ := Value.everywhere_of_mem_entries hv he hm
    obtain ⟨k, hk, hg⟩ := Value.get?_of_hasStringKeys hv he hm
    rcases h with ⟨f', hf, rfl⟩ | ⟨k', -, ⟨f', hf, rfl⟩ | ⟨-, -, rfl⟩⟩
    · have hl := leads_of_part (fun t ht => everywhere_of_mem_parts hs (key_mem_parts ht)) ihk hxk hf
      rw [hk] at hl
      rw [Fault.path_under, hk, Value.eq_nil_of_leads hl rfl rfl]
      exact Value.leads_key he fun _ _ => trivial
    · rw [Fault.path_under, hk]
      refine Value.leads_key he fun y hy => ?_
      obtain rfl := Option.some.inj (hg.symm.trans hy)
      exact leads_of_part (fun t ht => everywhere_of_mem_parts hs (value_mem_parts ht)) ihv hxv hf
    · rw [Fault.path_atToken, hk]
      exact Value.leads_key he fun _ _ => trivial

end Schema

end Conform
