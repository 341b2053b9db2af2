/-!
# Lines

A text as a sequence of lines. A line ends at a line feed, with or without a carriage return in
front; the last line may do without.
-/
namespace KernelCore.Text

def lines : List Char → List (List Char)
  | [] => []
  | '\n' :: rest => [] :: lines rest
  | '\r' :: '\n' :: rest => [] :: lines rest
  | c :: rest =>
    match lines rest with
    | [] => [[c]]
    | line :: more => (c :: line) :: more

end KernelCore.Text
