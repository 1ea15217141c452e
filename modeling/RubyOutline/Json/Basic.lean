/-!
JSON documents. The type of the texts in them is left open: a document that is
written holds ordinary texts, one that is read may hold surrogates.
-/

namespace RubyOutline

inductive Json (σ : Type) where
  | null
  | bool (value : Bool)
  | int (value : Int)
  /-- A number with a fraction or an exponent, as it is written. -/
  | real (literal : String)
  | string (text : σ)
  | array (items : List (Json σ))
  | object (members : List (σ × Json σ))

namespace Json

/-- The value of a member of an object; of several with one name the last. -/
def member? {σ : Type} [DecidableEq σ] (members : List (σ × Json σ)) (name : σ) :
    Option (Json σ) :=
  (members.reverse.find? (·.1 = name)).map (·.2)

mutual

/-- Replaces the texts of a document. -/
def map {σ τ : Type} (f : σ → τ) : Json σ → Json τ
  | null => null
  | bool value => bool value
  | int value => int value
  | real literal => real literal
  | string text => string (f text)
  | array items => array (mapItems f items)
  | object members => object (mapMembers f members)

def mapItems {σ τ : Type} (f : σ → τ) : List (Json σ) → List (Json τ)
  | [] => []
  | v :: vs => map f v :: mapItems f vs

def mapMembers {σ τ : Type} (f : σ → τ) : List (σ × Json σ) → List (τ × Json τ)
  | [] => []
  | (name, v) :: rest => (f name, map f v) :: mapMembers f rest

end

end Json

end RubyOutline
