/-
# The words of random propositions

The nouns and adjectives that random exercises are made of.

* `nodup_nouns`, `nodup_adjectives`: no word is listed twice.
-/
namespace Sentential
namespace English

/-- What the propositions are about. -/
def nouns : List String :=
  ["Water", "Bread", "Pizza", "Celery", "Pasta", "Soda", "Cheese", "Milk", "Chocolate", "Tea",
    "Coffee", "Sugar", "Salt"]

/-- What the propositions say. -/
def adjectives : List String :=
  ["Red", "Green", "Blue", "Yellow", "Orange", "Purple", "Violet", "Hot", "Cold", "Warm",
    "Tasty", "Bland", "Spicy", "Sour", "Sweet", "Salty", "Mild"]

theorem nodup_nouns : nouns.Nodup := by
  decide

theorem nodup_adjectives : adjectives.Nodup := by
  decide

end English
end Sentential
