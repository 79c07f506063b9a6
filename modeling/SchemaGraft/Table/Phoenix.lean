import SchemaGraft.Table.Basic

/-!
# The built-in patch table

The instructions of the Phoenix exchange that read their payload as one composite value.
-/

namespace SchemaGraft

namespace PatchTable

/-- A rule that appends an argument of the given name and type. -/
def rule (names : List String) (argument : String) (type : TypeRef) (aliases : List String := []) :
    PatchRule :=
  { names := names.map Text.ofString
    append := { name := argument, type }
    aliases := aliases.map Text.ofString }

/-- The table that is used when no other is given. -/
def phoenix : PatchTable where
  version := "phoenix-v1"
  program := some "phoenix"
  rules := [
    rule ["ReduceOrder", "ReduceOrderWithFreeFunds"] "params" (.defined "ReduceOrderParams"),
    rule ["CancelMultipleOrdersById", "CancelMultipleOrdersByIdWithFreeFunds"] "params"
      (.defined "CancelMultipleOrdersByIdParams")
      ["CancelMulitpleOrdersById", "CancelMulitpleOrdersByIdWithFreeFunds"],
    rule ["PlaceLimitOrder", "PlaceLimitOrderWithFreeFunds", "Swap", "SwapWithFreeFunds"]
      "orderPacket" (.defined "OrderPacket"),
    rule ["PlaceMultiplePostOnlyOrders", "PlaceMultiplePostOnlyOrdersWithFreeFunds"]
      "multipleOrderPacket" (.defined "MultipleOrderPacket"),
    rule ["CancelUpTo", "CancelUpToWithFreeFunds", "ForceCancelOrders"] "params"
      (.defined "CancelUpToParams"),
    rule ["DepositFunds"] "depositFundsParams" (.defined "DepositParams"),
    rule ["WithdrawFunds"] "withdrawFundsParams" (.defined "WithdrawParams"),
    rule ["ChangeSeatStatus"] "approvalStatus" (.defined "SeatApprovalStatus"),
    rule ["ChangeMarketStatus"] "marketStatus" (.defined "MarketStatus"),
    rule ["InitializeMarket"] "initializeParams" (.defined "InitializeParams"),
    rule ["NameSuccessor"] "successor" (.named "publicKey")]

end PatchTable

end SchemaGraft
