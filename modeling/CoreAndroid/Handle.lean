/-! Handles of the core library: numbers, with one that no object has. -/
namespace CoreAndroid

abbrev Handle := Nat

/-- `OFC_HANDLE_NULL`. -/
def handleNull : Handle := 0

end CoreAndroid
