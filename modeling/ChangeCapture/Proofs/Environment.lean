import ChangeCapture.Environment
import ChangeCapture.Proofs.Config
import ChangeCapture.Proofs.Dictionary
import Mathlib.Data.List.Perm.Basic
import Mathlib.Data.String.Basic

/-!
# The order of the variables

Several variables may name one property, for the case of a letter does not count and an underscore
stands for a point. Of these the last one listed decides, so the order in which an environment lists
its variables matters where they have different values, and nowhere else.

## Main definitions

* `Environment.Settles`: what an environment says of a property.
* `Environment.SameLast`, `Environment.NamedApart`: orders that say the same, and variables of which
  all orders do.

## Main results

* `Environment.get?_properties` — the last variable that names a property decides.
* `Environment.properties_eq_iff` — two orders set the same properties if they say the same of each.
* `Environment.order_counts_for_last` — when the order of the variables matters.
-/

namespace ChangeCapture

namespace Environment

/-- **What an environment says of a property**: the value of the last variable that names it. -/
def Settles (env : Environment) (property value : String) : Prop :=
  ∃ before variableName after, env = before ++ (variableName, value) :: after ∧
    propertyName? variableName = some property ∧ ∀ p ∈ after, propertyName? p.1 ≠ some property

/-- **Two orders say the same** of every property that the first says something of. -/
def SameLast (env env' : Environment) : Prop :=
  ∀ property value, Settles env property value → Settles env' property value

/-- No two variables name the same property. -/
def NamedApart (env : Environment) : Prop :=
  env.Pairwise fun p q => ∀ property, propertyName? p.1 = some property →
    propertyName? q.1 ≠ some property

variable {env env' : Environment} {property value : String}

/-- The property that a variable names, with its value. -/
def setting? (p : String × String) : Option (String × String) :=
  (propertyName? p.1).map (·, p.2)

/-- A variable sets the property that it names. -/
theorem setting?_eq_some {p : String × String} :
    setting? p = some (property, value) ↔ propertyName? p.1 = some property ∧ p.2 = value := by
  rw [setting?]
  cases propertyName? p.1 <;> simp

/-- The properties of an environment are what its variables set, one after the other. -/
theorem properties_eq (env : Environment) :
    env.properties = Dictionary.ofList (env.filterMap setting?) := rfl

/-- **The last variable that names a property decides.** -/
theorem get?_properties :
    Dictionary.get? property env.properties = some value ↔ Settles env property value := by
  rw [properties_eq, Dictionary.get?_ofList]
  constructor
  · rintro ⟨earlier, later, hsplit, hno⟩
    obtain ⟨first, rest, rfl, -, hrest⟩ := List.filterMap_eq_append_iff.mp hsplit
    obtain ⟨between, ⟨variableName, value'⟩, after, rfl, -, hsets, rfl⟩ :=
      List.filterMap_eq_cons_iff.mp hrest
    obtain ⟨hname, rfl⟩ := setting?_eq_some.mp hsets
    refine ⟨first ++ between, variableName, after, by simp, hname, fun p hp hpname => ?_⟩
    have hmem : (property, p.2) ∈ after.filterMap setting? :=
      List.mem_filterMap.mpr ⟨p, hp, setting?_eq_some.mpr ⟨hpname, rfl⟩⟩
    exact hno _ hmem rfl
  · rintro ⟨before, variableName, after, rfl, hname, hno⟩
    refine ⟨before.filterMap setting?, after.filterMap setting?, ?_, fun p hp hpname => ?_⟩
    · rw [List.filterMap_append, List.filterMap_cons_some (setting?_eq_some.mpr ⟨hname, rfl⟩)]
    · obtain ⟨q, hq, hsets⟩ := List.mem_filterMap.mp hp
      obtain ⟨hqname, -⟩ := setting?_eq_some.mp hsets
      exact hno q hq (hpname ▸ hqname)

/-- What an environment says of a property is one value. -/
theorem Settles.unique {value' : String} (h : Settles env property value)
    (h' : Settles env property value') : value = value' :=
  Option.some.inj ((get?_properties.mpr h).symm.trans (get?_properties.mpr h'))

/-- An environment says something of a property that a variable names. -/
theorem exists_settles {p : String × String} (hp : p ∈ env)
    (hname : propertyName? p.1 = some property) : ∃ value, Settles env property value := by
  have hmem : (property, p.2) ∈ env.filterMap setting? :=
    List.mem_filterMap.mpr ⟨p, hp, setting?_eq_some.mpr ⟨hname, rfl⟩⟩
  obtain ⟨value, hlast⟩ := Dictionary.exists_isLast hmem rfl
  exact ⟨value, get?_properties.mp (Dictionary.get?_ofList.mpr hlast)⟩

/-- **Two environments set the same properties** if they say the same of each. -/
theorem properties_eq_iff : env.properties = env'.properties ↔
    ∀ property value, Settles env property value ↔ Settles env' property value := by
  simp only [← get?_properties]
  refine ⟨fun h property value => by rw [h], fun h => ?_⟩
  exact Dictionary.ext (Dictionary.sorted_ofList _) (Dictionary.sorted_ofList _) fun property =>
    Option.ext fun value => h property value

/-- Orders of the same variables that say the same one way do so the other way. -/
theorem SameLast.properties_eq (hperm : env.Perm env') (h : SameLast env env') :
    env.properties = env'.properties := by
  refine properties_eq_iff.mpr fun property value => ⟨h property value, fun h' => ?_⟩
  obtain ⟨before, variableName, after, hsplit, hname, -⟩ := id h'
  have hmem : (variableName, value) ∈ env := hperm.mem_iff.mpr (by simp [hsplit])
  obtain ⟨value', hsettles⟩ := exists_settles hmem hname
  exact (h property value' hsettles).unique h' ▸ hsettles

/-- Variables that name different properties do so in any order. -/
theorem NamedApart.perm (h : NamedApart env) (hperm : env.Perm env') : NamedApart env' :=
  (hperm.pairwise_iff fun hpq property hq hp => hpq property hp hq).mp h

/-- Of variables that name different properties, all orders say the same. -/
theorem NamedApart.sameLast (hperm : env.Perm env') (h : NamedApart env) : SameLast env env' := by
  intro property value hsettles
  obtain ⟨before, variableName, after, hsplit, hname, -⟩ := hsettles
  have hmem : (variableName, value) ∈ env' := hperm.mem_iff.mp (by simp [hsplit])
  obtain ⟨before', after', rfl⟩ := List.append_of_mem hmem
  have hafter := (List.pairwise_cons.mp (List.pairwise_append.mp (h.perm hperm)).2.1).1
  exact ⟨before', variableName, after', rfl, hname, fun p hp => hafter p hp property hname⟩

/-- **The order of the variables counts for the last ones only.** Two orders in which an environment
lists the same variables describe the same configuration, or fail with the same error, if for each
property the last variable that names it has the same value in both; so all orders do if no two
variables name the same property. A configuration is the same in two orders only if these values
are. -/
theorem order_counts_for_last (hperm : env.Perm env') :
    (SameLast env env' → Config.ofEnvironment env = Config.ofEnvironment env') ∧
    (NamedApart env → Config.ofEnvironment env = Config.ofEnvironment env') ∧
    (∀ config, Config.ofEnvironment env = .ok config → Config.ofEnvironment env' = .ok config →
      SameLast env env') := by
  have hsame : SameLast env env' → Config.ofEnvironment env = Config.ofEnvironment env' :=
    fun h => by rw [Config.ofEnvironment, h.properties_eq hperm, ← Config.ofEnvironment]
  refine ⟨hsame, fun h => hsame (h.sameLast hperm), fun config h h' => ?_⟩
  have hproperties : env.properties = env'.properties :=
    (Config.ofProperties_eq_ok.mp h).properties.symm.trans
      (Config.ofProperties_eq_ok.mp h').properties
  exact fun property value => (properties_eq_iff.mp hproperties property value).mp

/-- Two names of one property stay in their order, and the others may move. -/
theorem order_counts_for_last_of_two :
    let env : Environment := [("EMBEDDED_CONNECTOR_NAME", "orders"), ("HOME", "/"),
      ("EMBEDDED_CONNECTOR_name", "stock"), ("EMBEDDED_CONNECTOR_CONNECTOR_CLASS", "pg")]
    let env' : Environment := [("EMBEDDED_CONNECTOR_CONNECTOR_CLASS", "pg"),
      ("EMBEDDED_CONNECTOR_NAME", "orders"), ("EMBEDDED_CONNECTOR_name", "stock"), ("HOME", "/")]
    env.Perm env' ∧ SameLast env env' ∧ Config.ofEnvironment env = Config.ofEnvironment env' := by
  intro env env'
  have hperm : env.Perm env' := by decide +kernel
  have hsame : SameLast env env' := by
    have hproperties : env.properties = env'.properties := by decide +kernel
    exact fun property value => (properties_eq_iff.mp hproperties property value).mp
  exact ⟨hperm, hsame, (order_counts_for_last hperm).1 hsame⟩

/-- **The order may matter**: two variables that differ in the case of a letter name the same
property, and the last one listed decides. -/
theorem not_any_order :
    ¬ ∀ env env' : Environment, (env.map Prod.fst).Nodup → env.Perm env' →
      Config.ofEnvironment env = Config.ofEnvironment env' := by
  intro hall
  let env : Environment :=
    [("EMBEDDED_CONNECTOR_NAME", "orders"), ("EMBEDDED_CONNECTOR_name", "stock")]
  have h := hall env env.reverse (by decide +kernel) (List.reverse_perm env).symm
  revert h
  decide +kernel

end Environment

end ChangeCapture
