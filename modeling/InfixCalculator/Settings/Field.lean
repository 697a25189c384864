import InfixCalculator.Settings

/-!
The fields of the settings: what they are called in documents, in which order
they stand there, and how one of them is read off or replaced.
-/

namespace InfixCalculator

namespace Settings

inductive Field where
  | pi
  | e
  | powerAssociativity
  | tangentTolerance
  deriving DecidableEq, Repr

namespace Field

def all : List Field := [.pi, .e, .powerAssociativity, .tangentTolerance]

def name : Field → String
  | .pi => "pi"
  | .e => "e"
  | .powerAssociativity => "power_associativity"
  | .tangentTolerance => "tan_tolerance"

def ofName? (name : Text) : Option Field := all.find? fun field => field.name.toList = name

abbrev Value : Field → Type
  | .pi | .e | .tangentTolerance => Binary64
  | .powerAssociativity => Associativity

theorem mem_all (field : Field) : field ∈ all := by
  cases field <;> decide

theorem name_inj {field other : Field} : field.name.toList = other.name.toList ↔ field = other := by
  have distinct : ∀ field ∈ all, ∀ other ∈ all, field.name.toList = other.name.toList →
      field = other := by
    decide
  exact ⟨distinct field field.mem_all other other.mem_all, fun same => by rw [same]⟩

theorem of_name_iff {name : Text} {field : Field} :
    ofName? name = some field ↔ field.name.toList = name := by
  constructor
  · intro found
    simpa using List.find?_some found
  · rintro rfl
    cases field <;> rfl

theorem of_name_none_iff {name : Text} :
    ofName? name = none ↔ ∀ field : Field, field.name.toList ≠ name := by
  simp [ofName?, mem_all]

end Field

def get (settings : Settings) : (field : Field) → field.Value
  | .pi => settings.pi
  | .e => settings.e
  | .powerAssociativity => settings.powerAssociativity
  | .tangentTolerance => settings.tangentTolerance

def set (settings : Settings) : (field : Field) → field.Value → Settings
  | .pi, pi => { settings with pi }
  | .e, e => { settings with e }
  | .powerAssociativity, powerAssociativity => { settings with powerAssociativity }
  | .tangentTolerance, tangentTolerance => { settings with tangentTolerance }

def ofFields (values : (field : Field) → field.Value) : Settings :=
  ⟨values .pi, values .e, values .powerAssociativity, values .tangentTolerance⟩

@[simp] theorem get_of_fields (values : (field : Field) → field.Value) (field : Field) :
    (ofFields values).get field = values field := by
  cases field <;> rfl

@[simp] theorem get_set (settings : Settings) (field : Field) (value : field.Value) :
    (settings.set field value).get field = value := by
  cases field <;> rfl

theorem get_set_other (settings : Settings) {field other : Field} (different : other ≠ field)
    (value : field.Value) : (settings.set field value).get other = settings.get other := by
  cases field <;> cases other <;> first | rfl | contradiction

@[simp] theorem set_set (settings : Settings) (field : Field) (first second : field.Value) :
    (settings.set field first).set field second = settings.set field second := by
  cases field <;> rfl

@[simp] theorem set_get (settings : Settings) (field : Field) :
    settings.set field (settings.get field) = settings := by
  cases field <;> rfl

theorem ext_get {settings other : Settings} (same : ∀ field, settings.get field = other.get field) :
    settings = other := by
  cases settings
  cases other
  rw [Settings.mk.injEq]
  exact ⟨same .pi, same .e, same .powerAssociativity, same .tangentTolerance⟩

end Settings

end InfixCalculator
